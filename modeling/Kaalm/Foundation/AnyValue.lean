import Kaalm.Foundation.JsonValue

/-!
# What Go reads from an `any`

Type assertions on a value that was decoded into an `any`, the text that `%v` formats for it, and
texts that are joined from parts.
-/

namespace GoJson

namespace JsonValue

/-- The entry of a map, if it has one. -/
def entry? (v : JsonValue) (name : String) : Option JsonValue :=
  match v with
  | .object members => members.lookup name
  | _ => none

end JsonValue

/-! ## `%v` -/

/-- The digits of a decimal with at most seventeen of them, without zeros at the end, and the
exponent of the first. -/
def Float64.digits (a : ℚ) : List Char × ℤ :=
  let exponent := Int.log 10 a
  let all := Nat.toDigits 10 (a / 10 ^ (exponent - 16)).floor.toNat
  ((all.reverse.dropWhile (· = '0')).reverse, exponent)

/-- `%v` of a `float64`. The exponent form is for the numbers from a million on, and for those below
a tenthousandth. -/
def Float64.sprint (x : ℚ) : String :=
  let sign := if x < 0 then "-" else ""
  if x = 0 then "0"
  else
    let (ds, exponent) := Float64.digits |Float64.shortest x|
    if exponent < -4 ∨ 6 ≤ exponent then
      let fraction := if ds.length ≤ 1 then "" else "." ++ String.ofList (ds.drop 1)
      let places := Nat.toDigits 10 exponent.natAbs
      sign ++ String.ofList (ds.take 1) ++ fraction ++ "e" ++ (if exponent < 0 then "-" else "+")
        ++ String.ofList (List.replicate (2 - places.length) '0' ++ places)
    else if exponent < 0 then
      sign ++ "0." ++ String.ofList (List.replicate (exponent.natAbs - 1) '0' ++ ds)
    else
      let whole := exponent.toNat + 1
      sign ++ String.ofList (ds.take whole ++ List.replicate (whole - ds.length) '0')
        ++ (if ds.length ≤ whole then "" else "." ++ String.ofList (ds.drop whole))

mutual

/-- `%v`. The entries of a map come in the order of their names. -/
def JsonValue.sprint : JsonValue → String
  | .null => "<nil>"
  | .bool b => if b then "true" else "false"
  | .number x => Float64.sprint x
  | .string s => s
  | .array vs => "[" ++ " ".intercalate (sprintElements vs) ++ "]"
  | .object ms =>
    "map[" ++ " ".intercalate ((canonical (sprintMembers ms)).map fun m ↦ m.1 ++ ":" ++ m.2) ++ "]"

def sprintElements : List JsonValue → List String
  | [] => []
  | v :: vs => v.sprint :: sprintElements vs

def sprintMembers : List (String × JsonValue) → List (String × String)
  | [] => []
  | m :: ms => (m.1, m.2.sprint) :: sprintMembers ms

end

example : (JsonValue.object [("b", .array [.number (3 / 2), .null]), ("a", .number 1000000)]).sprint
    = "map[a:1e+06 b:[1.5 <nil>]]" := by
  decide +kernel

end GoJson
