import CodeAtlas.Script.Statement

namespace CodeAtlas.Script

namespace Rule

/-- Reads by a rule that may use other rules down to `depth` levels below it. -/
def parse (dialect : Dialect) (bound : Nat) : Nat → Rule → Reader Node
  | 0, _ => Reader.fail
  | depth + 1, rule =>
    let g : Grammar := ⟨dialect, bound, parse dialect bound depth⟩
    match rule with
    | statement => g.statementRule
    | block => g.blockRule
    | expression place => g.expressionRule place
    | operand place => g.operandRule place
    | type place => g.typeRule place
    | typeOperand place => g.typeOperand place
    | pattern => g.patternRule
    | element => g.elementRule

end Rule

/-- Leaves out the first line if it names an interpreter. -/
def Cursor.skipInterpreter (cursor : Cursor) : Cursor :=
  match cursor.rest with
  | '#' :: '!' :: _ => cursor.dropWhile (· != '\n')
  | _ => cursor

/-- The syntax tree of a source, or the line, counted from 1, of the statement that is wrong.

Every rule that leads back to itself takes a character on the way, and no way is longer than eight
rules, so the depth suffices for every source. -/
def parse (dialect : Dialect) (source : String) : Except Nat Node :=
  let characters := source.toList
  let bound := characters.length + 1
  let g : Grammar := ⟨dialect, bound, Rule.parse dialect bound (8 * bound)⟩
  match g.programRule.run (Cursor.ofList characters).skipInterpreter with
  | .ok (tree, _) => .ok tree
  | .error failure => .error (failure.row.getD 0 + 1)

end CodeAtlas.Script
