import RemoteConsole.Capability.Nearest
import RemoteConsole.Text.CharSet
import RemoteConsole.Value.Literal

/-!
# Directions

The eight map directions, in the numbering of the remote side. A direction is given by its number
or by its name, in any case and with underscores, hyphens or spaces in it.
-/

namespace RemoteConsole

inductive Direction where
  | north | northEast | east | southEast | south | southWest | west | northWest
deriving DecidableEq, Repr

namespace Direction

def all : List Direction := [north, northEast, east, southEast, south, southWest, west, northWest]

def toNat : Direction → Nat
  | north => 0
  | northEast => 1
  | east => 2
  | southEast => 3
  | south => 4
  | southWest => 5
  | west => 6
  | northWest => 7

def name : Direction → String
  | north => "north"
  | northEast => "northeast"
  | east => "east"
  | southEast => "southeast"
  | south => "south"
  | southWest => "southwest"
  | west => "west"
  | northWest => "northwest"

def isAxial (d : Direction) : Bool := d.toNat % 2 == 0

def plainName (s : String) : String :=
  String.ofList (((Text.trim s.toList).map Char.toLower).filter fun c => !(c == '_' || c == '-' || c == ' '))

def ofName (s : String) : Except String Direction :=
  match all.find? fun d => d.name == plainName s with
  | some d => .ok d
  | none =>
    match nearest? (plainName s) (all.map name) with
    | some best => .error s!"unknown direction `{s}`, did you mean `{best}`?"
    | none => .error s!"unknown direction `{s}`"

theorem toNat_lt_all {i : Int} (h : 0 ≤ i ∧ i ≤ 7) : i.toNat < all.length := by
  have : all.length = 8 := rfl
  omega

def ofValue (v : Value) : Except String Direction :=
  match v with
  | .string s => ofName s
  | other =>
    let refused := .error s!"direction must be a name or 0..7, got {other.toLiteral}"
    match other.asInt? with
    | some i => if h : 0 ≤ i.toInt ∧ i.toInt ≤ 7 then .ok (all.get ⟨i.toInt.toNat, toNat_lt_all h⟩) else refused
    | none => refused

end Direction

end RemoteConsole
