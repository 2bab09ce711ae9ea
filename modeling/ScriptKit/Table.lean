/-!
Tables: keys with their values, in the order in which the keys came.
-/
namespace ScriptKit.Table

/-- Gives a key a value: in its old place, or after all other keys. -/
def put [DecidableEq κ] (key : κ) (value : α) : List (κ × α) → List (κ × α)
  | [] => [(key, value)]
  | (other, old) :: rest =>
    if other = key then (key, value) :: rest else (other, old) :: put key value rest

end ScriptKit.Table
