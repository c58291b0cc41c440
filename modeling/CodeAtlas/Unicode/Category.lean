namespace CodeAtlas.Unicode

/-- The categories, in the order of their letters in the table: `A` to `Z`, then `a` to `d`. -/
def categoryNames : List String :=
  ["Lu", "Ll", "Lt", "Lm", "Lo", "Mn", "Mc", "Me", "Nd", "Nl", "No", "Pc", "Pd", "Ps", "Pe",
    "Pi", "Pf", "Po", "Sm", "Sc", "Sk", "So", "Zs", "Zl", "Zp", "Cc", "Cf", "Co", "Cn", "Cs"]

/-- The categories of all code points in order: a letter for each run of code points of one
category, and the length of the run if that is not 1. -/
def categoryTable : String := String.join [
  "Z32WR3TR3NORSRMR2I10R2S3R2A26NROULUB26NSOSZ33WRT4VRUVEPSaVUVSK2UBR2UKEQK3RA23SA7B24SB8ABAB",
  "ABABABABABABABABABABABABABABABABABABABABABABABABABAB2ABABABABABABABAB2ABABABABABABABABABAB",
  "ABABABABABABABABABABABABABA2BABAB3A2BABA2BA3B2A4BA2BA3B3A2BA2BABABA2BAB2ABA2BA3BABA2B2EAB3",
  "E4ACBACBACBABABABABABABABAB2ABABABABABABABABAB2ACBABA3BABABABABABABABABABABABABABABABABABA",
  "BABABABABABABABABABABAB7A2BA2B2ABA4BABABABAB69EB27D18U4D12U14D5U7DUDU17F112ABABDUABc2DB3RA",
  "c4U2ARA3cAcA2BA17cA9B35AB2A3B3ABABABABABABABABABABABAB5ABSABA2B2A51B48ABABABABABABABABABAB",
  "ABABABABABABABVF5H2ABABABABABABABABABABABABABABABABABABABABABABABABABABABA2BABABABABABAB2A",
  "BABABABABABABABABABABABABABABABABABABABABABABABABABABABABABABABABABABABABABABABABABABABABA",
  "BABABcA38c2DR6B41RMc2V2TcF45MFRF2RF2RFc8E27c4E4R2c11a6S3R2TR2V2F11RaR3E32DE10F21I10R4E2FE9",
  "9REF7aVF6D2F2VF4E2I10E3V2ER14caEFE30F27c2E89F11Ec14I10E33F9D2VR3Dc2FT2E22F4DF9DF3DF5c2R15c",
  "E25F3c2RcE11c5E24UE6ca2c6F8E41DF24aF32GE54FGFEG3F8G4FG2EF7E10F2R2I10RDE15FG2cE8c2E2c2E22cE",
  "7cEc3E4c2FEG3F4c2G2c2G2FEc8Gc4E2cE3F2c2I10E2T2K6VTERFc2F2GcE6c4E2c2E22cE7cE2cE2cE2c2FcG3F2",
  "c4F2c2F3c3Fc7E4cEc7I10F2E3FRc10F2GcE9cE3cE22cE7cE2cE5c2FEG3F5cF2GcG2Fc2Ec15E2F2c2I10RTc7EF",
  "6cFG2cE8c2E2c2E22cE7cE2cE5c2FEGFGF4c2G2c2G2Fc7F2Gc4E2cE3F2c2I10VEK6c10FEcE6c3E3cE4c3E2cEcE",
  "2c3E2c3E3c3E12c4G2FG2c3G3cG3Fc2Ec6Gc14I10K3V6TVc5FG3FE8cE3cE23cE16c2FEF3G4cF3cF4c7F2cE3c2E",
  "c2E2F2c2I10c7RK7VEFG2RE8cE3cE23cE10cE5c2FEGFG5cFG2cG2F2c7G2c6E2cE2F2c2I10cE2c13F2G2E9cE3cE",
  "41F2EG3F4cG3cG3FEVc4E3GK7E3F2c2I10K9VE6cFG2cE18c3E24cE9cEc2E7c3Fc4G3F3cFcG8c6I10c2G2Rc12E4",
  "8FE2F7c4TE6DF8RI10R2c37E2cEcE5cE24cEcE10FE2F9Ec2E5cDcF6c2I10c2E4c32EV3R15VRV3F2V6I10K10VFV",
  "FVFNONOG2E8cE36c4F14GF5RF2E5F11cF36cV8FV6cV2R5V4R2c37E43G2F4GF6GF2G2F2EI10R6E6G2F2E4F3EG3E",
  "2G7E3F4E13FG2F2G6FEGI10G3FV2A38cAc5Ac2B43RDB3E329cE4c2E7cEcE4c2E41cE4c2E33cE4c2E7cEcE4c2E1",
  "5cE57cE4c2E67c2F3R9K20c3E16V10c6A86c2B6c2ME620VRE17WE26NOc3E75R3J3E8c7E18F3Gc9E19F2GR2c9E1",
  "8F2c12E13cE3cF2c12E52F2GF7G8FG2F11R3DR3TEFc2I10c6K10c6R6MR4F3aFI10c6E35DE53c7E5F2E34FEc5E7",
  "0c10E31cF3G4F2G3c4G2FG6F3c4Vc3R2I10E30c2E5c11E44c4E26c6I10Kc3V34E23F2G2Fc2R2E53GFGF7cFGFG2",
  "F8G6F10c2FI10c6I10c6R7DR6c2F14HF16c49F4GE47FGF5GFG5FG2E8c3I10R7V10F9V9R2cF2GE30GF4G2F2GF3E",
  "2I10E44FGF2G3FGF3G2c8R4E36G8F8G2F2c3R5I10c3E3I10E30D6R2B9c7A43c2A3R8c8F3RF13GF7E4FE6FE2GF2",
  "Ec5B44D63B13DB34D37F64ABABABABABABABABABABABABABABABABABABABABABABABABABABABABABABABABABAB",
  "ABABABABABABABABABABABABABABABABABABABABABABABABABABABABABABABABABABABABABABABABAB9ABABABA",
  "BABABABABABABABABABABABABABABABABABABABABABABABABABABABABABABABABABABABABABABABABABABABABA",
  "B9A8B6c2A6c2B8A8B8A8B6c2A6c2B8cAcAcAcAB8A8B14c2B8C8B8C8B8C8B5cB2A4CUBU3B3cB2A4CU3B4c2B2A4c",
  "U3B8A5U3c2B3cB2A4CU2cW11a5M6R2PQNP2QNPR8XYa5WR9PQR4L2R3SNOR11SRLR10Wa5ca10KDc2K6S3NODK10S3",
  "NOcD13c3T33c15F13H4FH3F12c15V2AV4AV2BA3B2A3BVAV2SA5V6AVAVAVA4VBA4BE4BV2B2A2S5AB4VSV2BVK16J",
  "35ABJ4KV2c4S5V5S2V4SV2SV2SV7SV31S2V2SVSV31S268V8NONOV20S2V7NOV81SV30S25V40S6V69c25V11c21K6",
  "0V78K22V183SV9SV54S8V111SV248NONONONONONONOK30V44S5NOS31NONONONONOS16V256S131NONONONONONON",
  "ONONONONOS63NONOS32NOS258V48S21V2S6V39c2V32cV105A48B48ABA3B2ABABABA4BAB2AB6D2A3BABABABABAB",
  "ABABABABABABABABABABABABABABABABABABABABABABABABABABABABABABABABABABABABABABABABABABABAB2V",
  "6ABABF3ABc5R4KR2B38cBc5Bc2E56c7DRc14FE23c9E7cE7cE7cE7cE7cE7cE7cE7cF32R2PQPQR3PQRPQR9MR2MRP",
  "QR2PQNONONONOR5DR10M2R4MRNR13V2R3NONONONOMc34V26cV89c12V214c26V12c4WR3VDEJNONONONONOV2NONO",
  "NONOMNO2VJ9F4G2MD5V2J3DERV2cE86c2F2U2D2EME90RD3Ec5E43cE94cV2K4V10E32V36c12E16V31cK10V30K8V",
  "K15V32K10V39K15V320E6592V64E21013DE1143c3V55c9E40D6R2E268DR3E16I10E2c20ABABABABABABABABABA",
  "BABABABABABABABABABABABABABEFH3RF10RDABABABABABABABABABABABABABABD2F2E70J10F2R6c8U23D9U2AB",
  "ABABABABABAB3ABABABABABABABABABABABABABABABABABABABABABABABABABABABABABABABDB8ABABA2BABABA",
  "BABDU2ABABEABAB3ABABABABABABABABABABA5BA5BABABABABABABABA4BABc5ABcBcBABABc24D3ABED2BE7FE3F",
  "E4FE23G2F2GV4Fc3K6V2TVc6E52R4c8G2E50G16F2c8R2I10c6F18E6R3ERE2FI10E28F8R2E23F11G2c11RE29c3F",
  "3GE47FG2F4G2F2G3R13cDI10c4R2E5FDE9I10E5cE41F6G2F2G2F2c9E3FE8FGc2I10c2R4E16DE6V3EGFGE50FEF3",
  "E2F2E5F2EFEc24E2DR2E11GF2G2R2ED2GFc10E6c2E6c2E6c9E7cE7cB43UD4B9DU2c4B80E35G2FG2FG2RGFc2I10",
  "c6E11172c12E23c4E49c4d2048b6400E366c2E106c38B7c12B5c5EFE10SE13cE5cEcE2cE2cE108U17c16E363ON",
  "V16E64c2E54c7Vc32E12TV3F16R7NORc6F16RM2L2NONONONONONONONOR2NOR4L3R3cR4MNONONOR3SMS3cRTR2c4",
  "E5cE135c2acR3TR3NORSRMR2I10R2S3R2A26NROULUB26NSOSNORNOR2E10DE45D2E31c3E6c2E6c2E6c2E3c3T2SU",
  "VT2cVS4V2c10a3V2c2E12cE26cE19cE2cE15c2E14c34E123c5R3c4K45c3V9J53K4V17K2V3cV13c3Vc47V45Fc13",
  "0E29c3E49c15FK27c4E32K4c9E20JE8Jc5E38F5c5E30cRE36c4E8RJ5c42A40B40E78c2I10c6A36c4B36c4E40c8",
  "E52c11RA11cA15cA7cA2cB11cB15cB7cB2c67E311c9E22c10E8c24D6cD42cD9c69E6c2EcE44cE2c3Ec2E23cRK8",
  "E23V2K7E31c8K9c48E19cE2c5K5E22K6c3RE26c5Rc64E56c4K2E2K16c2K46EF3cF2c5F4E4cE3cE29c2F3c4FK9c",
  "7R9c7E29K2RE29K3c32E8VE28F2c4K5R7c9E54c3R7E22c2K8E19c5K8E18c7R4c12K7c80E73c55A51c13B51c7K6",
  "E36F4c8I10c294K31cE42cF2Mc2E2c78E29K10Ec8E22F11K4R5c22E18F4R4c38E21K7c20E23c9GFGE53F15R7c4",
  "K20I10FE2F2Ec9F3GE45G3F4G2F2R2aR4Fc10ac2E25c7I10c6F3E36F5GF8cI10R4EG2Ec8E35FR2Ec9F2GE48G3F",
  "9G2E4R4F4RGFI10ERER3cK20c11E18cE25G3F3G2FGF2R6Fc65E7cEcE4cE15cE10Rc6E47FG3F8c5I10c6F2G2cE8",
  "c2E2c2E22cE7cE2cE5cF2EG2FG4c2G2c2G3c2Ec6Gc5E5G2c2F7c3F5c139E53G3F8G2F3GFE4R5I10R2cRFE3c30E",
  "48G3F6GFG4F2GF2E2REc8I10c166E47G3F4c2G4F2GF2R23E4F2c34E48G3F8G2FGF2R3Ec11I10c6R13c19E43FGF",
  "G2F6GFERc6I10c54E27c2F3G2F4GF5c4I10K2R3VE7c185E44G3F9GF2Rc100A32B32I10K9c12E8c2Ec2E8cE2cE2",
  "4G6cG2c2F2GFEGEGFR3c9I10c70E8c2E39G3F4c2F2G4FEREGc27EF10E40F6GEF4R8Fc8EF6G2F3E46F13GF2R3ER",
  "5c13E73c263E9cE37GF7cF6GFER5c10I10K19c3R2E30c2F22cGF7GF2GF2c73E7cE2cE38F6c3FcF2cF7EFc8I10c",
  "6E6cE2cE32G5cF2cG2FGFEc7I10c310E19F2G2R2c183Ec15K21V8T4V17c13RE922c102J111cR5c11E196c2636E",
  "97R2c13E1071ca9c4039E583c8633E569c7E31cI10c4R2E79cI10c6E30c2F5Rc10E48F7R5V4D4RVc10I10cK7cE",
  "21c5E19c688A32B32K23R4c101E75c4FEG55c7F4D13c64D2RDFc11G2c14E6136c8E1238c42E9c8935D4cD7cD2c",
  "E291c45E3c17E4c8E396c2308E107c5E13c3E9c7E10c2VF2Ra4c4700F46c2F23c9V116c60V246c10V39c2V60G2",
  "F3V3G6a8F8V2F7V30F4V61c21V66F3Vc154K20c12V87c9K25c135A26B26A26B7cB18A26B26AcA2c2Ac2A2c2A4c",
  "A8B4cBcB7cB11A26B26A2cA4c2A8cA7cB26A2cA4cA5cAc3A7cB26A26B26A26B26A26B26A26B26A26B26A26B28c",
  "2A25SB25SB6A25SB25SB6A25SB25SB6A25SB25SB6A25SB25SB6ABc2I50V512F55V4F50V8FV14FV2R5c15F5cF15",
  "c1104B10EB20c225F7cF17c2F7cF2cF5c213E45c3F7D7c2I10c4EVc320E30Fc17E44F4I10c5Tc1248E7cE4cE2c",
  "E15cE197c2K9F7c41A34B34F7Dc4I10c4R2c785K59VK3TK4c76K45VK15c194E4cE27cE2cEc2EcE10cE4cEcEc6E",
  "c4EcEcEcE3cE2cEc2EcEcEcEcEcE2cEc2E4cE7cE4cE4cEcE10cE17c5E3cE5cE17c52S2c270V44c4V100c12V15c",
  "2V15cV15cV37c10K13V161c56V29c13V44c4V9c7V2c14V6c154V251U5V728c5V16c3V13c3V116c12V89c7V12c4",
  "Vc15V12c4V56c8V10c6V40c8V30c2V2c78V340c12V14c2V5c3V5c3V7c9V29c3V11c5V6c10V10c6V8c8V7c9V147",
  "cV55c37I10c1030E42720c32E4153c7E222c2E5762c14E7473c3103E542c1506E4939c715958ac30a96c128F24",
  "0c65040b65534c2b65534c2"]

/-- A run of code points of one category: its number in the list of names, the first code point and
how many there are. -/
structure Run where
  category : Nat
  first : Nat
  count : Nat

/-- A reading of the table: the runs before the present one, last first, its category, its first
code point and the digits of its length so far. -/
structure TableReading where
  runs : List Run
  category : Option Nat
  first : Nat
  digits : Option Nat

namespace TableReading

/-- Ends the present run. -/
def close (reading : TableReading) : TableReading :=
  match reading.category with
  | none => reading
  | some category =>
    let count := reading.digits.getD 1
    ⟨⟨category, reading.first, count⟩ :: reading.runs, none, reading.first + count, none⟩

def next (reading : TableReading) (c : Char) : TableReading :=
  if c.isDigit then
    { reading with digits := some (reading.digits.getD 0 * 10 + (c.toNat - '0'.toNat)) }
  else
    let number := if c.isUpper then c.toNat - 'A'.toNat else c.toNat - 'a'.toNat + 26
    { reading.close with category := some number }

end TableReading

/-- All runs in order. -/
def categoryRuns : List Run :=
  (categoryTable.toList.foldl TableReading.next ⟨[], none, 0, none⟩).close.runs.reverse

/-- The code points of the categories that satisfy `p`, as ranges with both ends. -/
def rangesOfCategories (p : String → Bool) : List (Nat × Nat) :=
  let wanted := categoryNames.map p
  (categoryRuns.filter fun run => wanted[run.category]?.getD false).map fun run =>
    (run.first, run.first + run.count - 1)

end CodeAtlas.Unicode
