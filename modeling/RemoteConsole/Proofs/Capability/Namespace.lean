import RemoteConsole.Capability.Namespace
import RemoteConsole.Proofs.Assoc

/-!
# Names in a namespace

Public and admin bindings share one map, in which an admin binding is marked. Whatever was registered and
cleared before, each binding stands under its own key, so the mark alone decides what a name can reach
while admin capabilities are hidden, and every name that is listed leads back to its binding.
-/

namespace RemoteConsole

variable {α : Type}

theorem adminKey_inj {a b : String} (h : adminKey a = adminKey b) : a = b := by
  have hlists := congrArg String.toList h
  rw [adminKey, adminKey, String.toList_append, String.toList_append, List.append_cancel_left_eq] at hlists
  exact String.toList_inj.mp hlists

theorem Binding.key_everyone {b : Binding α} (h : b.visibility = .everyone) : b.key = b.name := by
  rw [key, h]

theorem Binding.key_admin {b : Binding α} (h : b.visibility = .admin) : b.key = adminKey b.name := by
  rw [key, h]

namespace Namespace

inductive Change (α : Type) where
  | register (b : Binding α)
  | clear
  | setAdminVisible (visible : Bool)

def next (ns : Namespace α) : Change α → Namespace α
  | .register b => ns.register b
  | .clear => ns.clear
  | .setAdminVisible visible => ns.setAdminVisible visible

def after (ns : Namespace α) (changes : List (Change α)) : Namespace α := changes.foldl next ns

/-- The bindings registered since the namespace was last cleared. -/
def registered (changes : List (Change α)) : List (Binding α) :=
  changes.foldl (fun bindings change => match change with
    | .register b => bindings ++ [b]
    | .clear => []
    | .setAdminVisible _ => bindings) []

def Change.visible? : Change α → Option Bool
  | .setAdminVisible visible => some visible
  | _ => none

theorem after_snoc (ns : Namespace α) (changes : List (Change α)) (change : Change α) :
    ns.after (changes ++ [change]) = (ns.after changes).next change := by
  simp [after]

theorem bindings_next {ns : Namespace α} {changes : List (Change α)}
    (h : ns.bindings = Assoc.ofList ((registered changes).map fun b => (b.key, b))) (change : Change α) :
    (ns.next change).bindings = Assoc.ofList ((registered (changes ++ [change])).map fun b => (b.key, b)) := by
  cases change with
  | register b => simp [next, register, registered, h, Assoc.ofList_append]
  | clear => simp [next, clear, registered, Assoc.ofList, Assoc.putAll]
  | setAdminVisible visible => simpa [next, setAdminVisible, registered] using h

theorem bindings_after (agent : Nat) (changes : List (Change α)) :
    ((new agent).after changes).bindings = Assoc.ofList ((registered changes).map fun b => (b.key, b)) := by
  induction changes using List.reverseRecOn with
  | nil => simp [after, new, registered, Assoc.ofList, Assoc.putAll]
  | append_singleton changes change ih =>
    rw [after_snoc]
    exact bindings_next ih change

/-- Only setting it changes the visibility, and clearing does not reset it. -/
theorem adminVisible_after (agent : Nat) (changes : List (Change α)) :
    ((new agent).after changes).adminVisible = (changes.reverse.findSome? Change.visible?).getD false := by
  induction changes using List.reverseRecOn with
  | nil => rfl
  | append_singleton changes change ih =>
    rw [after_snoc, List.reverse_append, List.reverse_singleton, List.singleton_append, List.findSome?_cons]
    cases change with
    | register b => exact ih
    | clear => exact ih
    | setAdminVisible visible => rfl

/-! ## Keys -/

/-- Every binding stands under its own key, and no other stands there. -/
structure Keyed (ns : Namespace α) : Prop where
  key : ∀ e ∈ ns.bindings, e.1 = e.2.key
  nodup : (Assoc.keys ns.bindings).Nodup

theorem keyed_after (agent : Nat) (changes : List (Change α)) : ((new agent).after changes).Keyed := by
  constructor
  · intro e he
    rw [bindings_after] at he
    obtain ⟨b, -, rfl⟩ := List.mem_map.mp (Assoc.mem_of_mem_ofList he)
    rfl
  · rw [bindings_after]
    apply Assoc.nodup_ofList

section
variable {ns : Namespace α} (hkeyed : ns.Keyed) {name : String} {b : Binding α}

include hkeyed

theorem Keyed.stored_iff : Assoc.get? name ns.bindings = some b ↔ b ∈ ns.all ∧ b.key = name := by
  constructor
  · intro h
    have hmem := Assoc.mem_of_get? h
    exact ⟨List.mem_map_of_mem hmem, (hkeyed.key _ hmem).symm⟩
  · rintro ⟨hb, rfl⟩
    obtain ⟨e, he, rfl⟩ := List.mem_map.mp hb
    rw [← hkeyed.key e he]
    exact Assoc.get?_of_mem hkeyed.nodup he

theorem Keyed.stored_none : Assoc.get? name ns.bindings = none ↔ ∀ b ∈ ns.all, b.key ≠ name := by
  rw [Option.eq_none_iff_forall_ne_some]
  constructor
  · intro h b hb hkey
    exact h b (hkeyed.stored_iff.mpr ⟨hb, hkey⟩)
  · intro h b hb
    obtain ⟨hmem, hkey⟩ := hkeyed.stored_iff.mp hb
    exact h b hmem hkey

theorem Keyed.get?_iff : ns.get? name = some b ↔ b ∈ ns.all ∧ (b.key = name ∨
    ns.adminVisible = true ∧ b.visibility = .admin ∧ b.name = name ∧ ∀ other ∈ ns.all, other.key ≠ name) := by
  unfold get?
  cases hstored : Assoc.get? name ns.bindings with
  | some found =>
    obtain ⟨hfound, hkey⟩ := hkeyed.stored_iff.mp hstored
    constructor
    · intro h
      cases h
      exact ⟨hfound, .inl hkey⟩
    · rintro ⟨hb, h | ⟨-, -, -, hnone⟩⟩
      · exact hstored.symm.trans (hkeyed.stored_iff.mpr ⟨hb, h⟩)
      · exact absurd hkey (hnone found hfound)
  | none =>
    have hnone := hkeyed.stored_none.mp hstored
    by_cases hvisible : ns.adminVisible = true
    · simp only [hvisible, if_true, Option.filter_eq_some_iff, hkeyed.stored_iff, beq_iff_eq, true_and]
      constructor
      · rintro ⟨⟨hb, hkey⟩, hadmin⟩
        rw [Binding.key_admin hadmin] at hkey
        exact ⟨hb, .inr ⟨hadmin, adminKey_inj hkey, hnone⟩⟩
      · rintro ⟨hb, h | ⟨hadmin, hname, -⟩⟩
        · exact absurd h (hnone b hb)
        · refine ⟨⟨hb, ?_⟩, hadmin⟩
          rw [Binding.key_admin hadmin, hname]
    · simp only [hvisible]
      constructor
      · intro h
        cases h
      · rintro ⟨hb, h | ⟨h, -⟩⟩
        · exact absurd h (hnone b hb)
        · cases h

theorem Keyed.find_key (hb : b ∈ ns.all) : ns.find b.key = .ok b := by
  rw [find, hkeyed.get?_iff.mpr ⟨hb, .inl rfl⟩]

theorem Keyed.map_find (p : Binding α → Bool) :
    ((ns.all.filter p).map Binding.key).map ns.find = (ns.all.filter p).map .ok := by
  rw [List.map_map]
  apply List.map_congr_left
  intro b hb
  exact hkeyed.find_key (List.mem_filter.mp hb).1

end

/-! ## Hidden and visible names -/

/-- A name without the mark of the admin capabilities in front. -/
def IsPlain (name : String) : Prop := ∀ rest, name ≠ adminKey rest

theorem key_ne_of_isPlain {name : String} (hplain : IsPlain name) {b : Binding α}
    (h : b.visibility = .everyone → b.name ≠ name) : b.key ≠ name := by
  cases hvisibility : b.visibility with
  | everyone =>
    rw [Binding.key_everyone hvisibility]
    exact h hvisibility
  | admin =>
    rw [Binding.key_admin hvisibility]
    exact (hplain b.name).symm

section
variable {ns : Namespace α} (hkeyed : ns.Keyed) {name : String} {b : Binding α}

include hkeyed

theorem Keyed.name_of_hidden (hhidden : ns.adminVisible = false) (hget : ns.get? name = some b)
    (hadmin : b.visibility = .admin) : name = adminKey b.name := by
  obtain ⟨-, hkey | ⟨hvisible, -⟩⟩ := hkeyed.get?_iff.mp hget
  · rw [← hkey, Binding.key_admin hadmin]
  · rw [hhidden] at hvisible
    cases hvisible

theorem Keyed.get?_iff_of_isPlain (hvisible : ns.adminVisible = true) (hplain : IsPlain name)
    (hnone : ∀ b ∈ ns.all, b.visibility = .everyone → b.name ≠ name) :
    ns.get? name = some b ↔ b ∈ ns.all ∧ b.visibility = .admin ∧ b.name = name := by
  -- only a public capability can stand under a plain name, so nothing does
  have hunmarked : ∀ other ∈ ns.all, other.key ≠ name := fun other hother =>
    key_ne_of_isPlain hplain (hnone other hother)
  rw [hkeyed.get?_iff]
  constructor
  · rintro ⟨hb, hkey | ⟨-, hadmin, hname, -⟩⟩
    · exact absurd hkey (hunmarked b hb)
    · exact ⟨hb, hadmin, hname⟩
  · rintro ⟨hb, hadmin, hname⟩
    exact ⟨hb, .inr ⟨hvisible, hadmin, hname, hunmarked⟩⟩

end

theorem everyone_of_mem_names {ns : Namespace α} (hhidden : ns.adminVisible = false) {name : String}
    (hname : name ∈ ns.names) : ∃ b ∈ ns.all, b.visibility = .everyone ∧ b.name = name := by
  obtain ⟨b, hb, rfl⟩ := List.mem_map.mp hname
  obtain ⟨hmem, hpublic⟩ := List.mem_filter.mp hb
  have hpublic : b.visibility = .everyone := by simpa [hhidden] using hpublic
  exact ⟨b, hmem, hpublic, (Binding.key_everyone hpublic).symm⟩

/-- **Names.** In whatever way a namespace was changed, a key holds the last binding that was registered
with it since the last clearing, and admin capabilities are as visible as they were last set to be. While they
are hidden, only a marked name reaches one, and only public ones are listed. While they are visible, a name
reaches the public binding of that name, and a plain one otherwise the admin binding of that name. Every listed
name can be called and leads to the binding that it is listed for. -/
theorem names_after (agent : Nat) (changes : List (Change α)) :
    let ns := (new agent).after changes
    (∀ e ∈ ns.bindings, e.1 = e.2.key) ∧
    (∀ key, Assoc.get? key ns.bindings = (registered changes).reverse.find? (·.key = key)) ∧
    ns.adminVisible = (changes.reverse.findSome? Change.visible?).getD false ∧
    (ns.adminVisible = false →
      (∀ name b, ns.get? name = some b → b.visibility = .admin → name = "_" ++ b.name) ∧
      ∀ name ∈ ns.names, ∃ b ∈ ns.all, b.visibility = .everyone ∧ b.name = name) ∧
    (ns.adminVisible = true → ∀ name,
      (∀ b ∈ ns.all, b.visibility = .everyone → b.name = name → ns.get? name = some b) ∧
      (IsPlain name → (∀ b ∈ ns.all, b.visibility = .everyone → b.name ≠ name) →
        ∀ b, ns.get? name = some b ↔ b ∈ ns.all ∧ b.visibility = .admin ∧ b.name = name)) ∧
    ns.names.map ns.find = (ns.all.filter fun b => ns.adminVisible || b.visibility == .everyone).map .ok ∧
    ns.adminNames.map ns.find = (ns.all.filter (·.visibility == .admin)).map .ok := by
  intro ns
  have hkeyed : ns.Keyed := keyed_after agent changes
  refine ⟨hkeyed.key, fun key => ?_, adminVisible_after agent changes,
    fun hhidden => ⟨fun name b => ?_, fun name => ?_⟩, fun hvisible name => ⟨?_, fun hplain hnone b => ?_⟩,
    hkeyed.map_find _, hkeyed.map_find _⟩
  · rw [show ns.bindings = _ from bindings_after agent changes, Assoc.get?_ofList, ← List.map_reverse,
      Assoc.get?_map, Option.map_id']
  · exact hkeyed.name_of_hidden hhidden
  · exact everyone_of_mem_names hhidden
  · intro b hb hpublic hname
    rw [hkeyed.get?_iff]
    exact ⟨hb, .inl ((Binding.key_everyone hpublic).trans hname)⟩
  · exact hkeyed.get?_iff_of_isPlain hvisible hplain hnone

/-- A public and an admin capability of one name, and one that is only there for admins, all of them visible. -/
def mixed : List (Change Nat) :=
  [.register ⟨"move", 0, .everyone, 1⟩, .register ⟨"move", 0, .admin, 2⟩, .register ⟨"wipe", 0, .admin, 3⟩,
    .setAdminVisible true]

theorem names_after_mixed :
    let ns := (new 0).after mixed
    ns.adminVisible = true ∧ ns.get? "move" = some ⟨"move", 0, .everyone, 1⟩ ∧
      ns.get? "wipe" = some ⟨"wipe", 0, .admin, 3⟩ ∧
      ["move", "_move", "_wipe"].map ns.find = ([⟨"move", 0, .everyone, 1⟩, ⟨"move", 0, .admin, 2⟩,
        ⟨"wipe", 0, .admin, 3⟩] : List (Binding Nat)).map .ok := by
  intro ns
  obtain ⟨-, -, hset, -, hvisible, hnames, -⟩ := names_after 0 mixed
  have hon : ns.adminVisible = true := hset
  have hall : ns.all = [⟨"move", 0, .everyone, 1⟩, ⟨"move", 0, .admin, 2⟩, ⟨"wipe", 0, .admin, 3⟩] := by decide +kernel
  have hplain : IsPlain "wipe" := by
    intro rest h
    have hlists := congrArg String.toList h
    rw [adminKey, String.toList_append] at hlists
    cases hlists
  refine ⟨hon, (hvisible hon "move").1 _ (by rw [hall]; simp) rfl rfl, ?_, hnames⟩
  refine ((hvisible hon "wipe").2 hplain ?_ _).mpr ⟨by rw [hall]; simp, rfl, rfl⟩
  rw [hall]
  decide

end Namespace

end RemoteConsole
