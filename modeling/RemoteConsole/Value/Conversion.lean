import RemoteConsole.Value.Basic

/-!
# Conversions to values

Everything that can be a parameter has a value: whole numbers of every width are integers, an
option without content is nil, and a list is converted item by item.
-/

namespace RemoteConsole

class ToValue (α : Type) where
  toValue : α → Value

export ToValue (toValue)

instance : ToValue Value := ⟨id⟩

instance : ToValue Bool := ⟨.boolean⟩

instance : ToValue Int8 := ⟨fun i => .integer (Int64.ofInt i.toInt)⟩

instance : ToValue Int16 := ⟨fun i => .integer (Int64.ofInt i.toInt)⟩

instance : ToValue Int32 := ⟨fun i => .integer (Int64.ofInt i.toInt)⟩

instance : ToValue Int64 := ⟨.integer⟩

instance : ToValue UInt8 := ⟨fun n => .ofNat n.toNat⟩

instance : ToValue UInt16 := ⟨fun n => .ofNat n.toNat⟩

instance : ToValue UInt32 := ⟨fun n => .ofNat n.toNat⟩

/-- A whole number beyond the largest integer wraps around to a negative one. -/
instance : ToValue UInt64 := ⟨fun n => .ofNat n.toNat⟩

instance : ToValue Double := ⟨.number⟩

instance : ToValue String := ⟨.string⟩

instance {α : Type} [ToValue α] : ToValue (Option α) := ⟨fun o => (o.map toValue).getD .nil⟩

instance {α : Type} [ToValue α] : ToValue (List α) := ⟨fun items => .list (items.map toValue)⟩

end RemoteConsole
