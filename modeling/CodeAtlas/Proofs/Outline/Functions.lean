import CodeAtlas.Proofs.Outline.Calls
import CodeAtlas.Proofs.Outline.Symbols

namespace CodeAtlas

namespace Outline

open Script

section Declared

variable (text : Wording)

variable {text} {tree node : Node} {place : Address} {name : String}

end Declared

section CallsByName

variable {text : Wording} {tree : Node} {place : Address} {name : String}

theorem AreCalls.nothing {searched : Address → Prop} (all : AreCalls text tree searched [])
    (calls : tree.CallsAt place) : ¬searched place := by
  intro inside
  obtain ⟨listing, listed, _⟩ := all
  have member := (listed.mem_iff place).mpr ⟨calls, inside⟩
  rw [List.map_eq_nil_iff.mp listed.calls_eq] at member
  cases member

end CallsByName

end Outline

end CodeAtlas
