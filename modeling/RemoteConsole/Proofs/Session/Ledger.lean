import RemoteConsole.Json.Printer
import RemoteConsole.Proofs.Session.Remote
import RemoteConsole.Proofs.Table.Literal

/-!
# A ledger

The least remote side that keeps the table: it runs the assignments of an update, forgets everything
when it is cleared, prints the table when asked for it and answers nothing to any other command.
-/

namespace RemoteConsole.Ledger

open Text (after? after?_append)

/-! ## Updates -/

def opening : String := "/sc global.fingerprints = global.fingerprints or \x7b\x7d; "

def assignment (e : String × String) : String :=
  "global.fingerprints[" ++ (Value.string e.1).toLiteral ++ "] = " ++ (Value.string e.2).toLiteral

def assignment? (s : List Char) : Option ((String × String) × List Char) := do
  let (name, s) ← Table.string? (← after? "global.fingerprints[".toList s)
  let (hash, s) ← Table.string? (← after? "] = ".toList s)
  return ((← (Table.unescape name).toOption, ← (Table.unescape hash).toOption), s)

def assignments? : (fuel : Nat) → List Char → Option (List (String × String))
  | _, [] => some []
  | 0, _ => none
  | fuel + 1, s => do
    let (e, s) ← assignment? s
    if s = [] then return [e]
    let entries ← assignments? fuel (← after? "; ".toList s)
    return e :: entries

def updates? (text : String) : Option (List (String × String)) := do
  let s ← after? opening.toList text.toList
  (assignments? s.length s).filter fun entries => Console.recordCommand entries == text

theorem recordCommand_eq (entries : List (String × String)) :
    Console.recordCommand entries = opening ++ "; ".intercalate (entries.map assignment) := rfl

def joined (entries : List (String × String)) : List Char :=
  "; ".toList.intercalate (entries.map fun e => (assignment e).toList)

theorem joined_last (e : String × String) : joined [e] = (assignment e).toList := by
  rw [joined, List.map_singleton, List.intercalate_singleton]

theorem joined_more (e f : String × String) (rest : List (String × String)) :
    joined (e :: f :: rest) = (assignment e).toList ++ ("; ".toList ++ joined (f :: rest)) := by
  rw [joined, List.map_cons, List.map_cons, List.intercalate_cons_cons, List.append_assoc, joined, List.map_cons]

theorem toList_recordCommand (entries : List (String × String)) :
    (Console.recordCommand entries).toList = opening.toList ++ joined entries := by
  rw [recordCommand_eq, String.toList_append, String.toList_intercalate, List.map_map]
  rfl

theorem toList_literal (s : String) : (Value.string s).toLiteral.toList = quote s.toList := by
  rw [Value.toLiteral, String.toList_ofList, Value.literal]

theorem toList_assignment (e : String × String) : (assignment e).toList =
    "global.fingerprints[".toList ++ (quote e.1.toList ++ ("] = ".toList ++ quote e.2.toList)) := by
  unfold assignment
  rw [String.toList_append, String.toList_append, String.toList_append, toList_literal, toList_literal]
  rw [List.append_assoc, List.append_assoc]

theorem assignment?_append (e : String × String) (rest : List Char) :
    assignment? ((assignment e).toList ++ rest) = some (e, rest) := by
  have hquoted (s : String) : (Table.unescape (s.toList.flatMap escapeChar)).toOption = some s := by
    rw [Table.unescape_quoted, String.ofList_toList]
    rfl
  unfold assignment?
  rw [toList_assignment]
  simp only [List.append_assoc, after?_append, Table.string?_quote, hquoted, Option.bind_eq_bind, Option.bind_some]
  rfl

theorem assignment_ne_nil (e : String × String) (rest : List Char) : (assignment e).toList ++ rest ≠ [] := by
  intro h
  have hquote : quote e.1.toList = [] := by
    rw [toList_assignment] at h
    exact (List.append_eq_nil_iff.mp (List.append_eq_nil_iff.mp (List.append_eq_nil_iff.mp h).1).2).1
  cases hquote

theorem assignments?_last (e : String × String) (fuel : Nat) :
    assignments? (fuel + 1) (assignment e).toList = some [e] := by
  have hread := assignment?_append e []
  have hne := assignment_ne_nil e []
  rw [List.append_nil] at hread hne
  rw [assignments?]
  · rw [hread]
    rfl
  · exact hne

theorem assignments?_more (e : String × String) (fuel : Nat) (rest : List Char) :
    assignments? (fuel + 1) ((assignment e).toList ++ ("; ".toList ++ rest)) = (e :: ·) <$> assignments? fuel rest := by
  have hne : "; ".toList ++ rest ≠ [] := List.append_ne_nil_of_left_ne_nil (by decide) rest
  rw [assignments?]
  · rw [assignment?_append]
    simp only [Option.bind_eq_bind, Option.bind_some, after?_append]
    rw [if_neg hne]
    cases assignments? fuel rest with
    | none => rfl
    | some entries => rfl
  · exact assignment_ne_nil e _

theorem assignments?_joined : ∀ (entries : List (String × String)) {fuel : Nat}, entries.length ≤ fuel →
    assignments? fuel (joined entries) = some entries
  | [], fuel, _ => by cases fuel <;> rfl
  | [e], fuel + 1, _ => by rw [joined_last, assignments?_last]
  | e :: f :: rest, fuel + 1, h => by
    rw [joined_more, assignments?_more, assignments?_joined (f :: rest) (Nat.le_of_succ_le_succ h)]
    rfl

theorem length_joined : ∀ entries : List (String × String), entries.length ≤ (joined entries).length
  | [] => Nat.zero_le _
  | [e] => by
    have hne := assignment_ne_nil e []
    rw [List.append_nil] at hne
    rw [joined_last]
    exact List.length_pos_iff.mpr hne
  | e :: f :: rest => by
    have ih := length_joined (f :: rest)
    have hsep : "; ".toList.length = 2 := by decide
    rw [joined_more, List.length_append, List.length_append, hsep]
    simp only [List.length_cons] at ih ⊢
    omega

theorem updates?_recordCommand (entries : List (String × String)) :
    updates? (Console.recordCommand entries) = some entries := by
  unfold updates?
  rw [toList_recordCommand, after?_append]
  simp only [Option.bind_eq_bind, Option.bind_some]
  rw [assignments?_joined entries (length_joined entries), Option.filter_some, if_pos (by simp)]

theorem eq_recordCommand {text : String} {entries : List (String × String)} (h : updates? text = some entries) :
    text = Console.recordCommand entries := by
  unfold updates? at h
  obtain ⟨s, -, h⟩ := Option.bind_eq_some_iff.mp h
  obtain ⟨-, hsame⟩ := Option.filter_eq_some_iff.mp h
  exact (beq_iff_eq.mp hsame).symm

theorem recordCommand_ne {text : String} (h : after? opening.toList text.toList = none)
    (entries : List (String × String)) : Console.recordCommand entries ≠ text := by
  rintro rfl
  rw [toList_recordCommand, after?_append] at h
  cases h

/-! ## The remote side -/

def print (table : List (String × String)) : String :=
  (Json.object (table.map fun (name, hash) => (name, .string hash))).text

/-- A table that would not read back is not printed. -/
def send (text : String) : Action (List (String × String)) LinkReply := fun table =>
  if text = Console.fetchCommand then
    if Console.fingerprints? (print table) = some table then (.ok ⟨print table, ⟨0⟩⟩, table)
    else (.error (.transport "unreadable table"), table)
  else if text = Console.clearCommand then (.ok ⟨"", ⟨0⟩⟩, [])
  else match updates? text with
    | some entries => (.ok ⟨"", ⟨0⟩⟩, entries.foldl (fun table e => Assoc.putOrdered e.1 e.2 table) table)
    | none => (.ok ⟨"", ⟨0⟩⟩, table)

def link : Link (List (String × String)) where
  send := send
  sendBatch := fun _ => Action.fail (.transport "no batches")
  close := pure ()
  interrupt := none

theorem link_send (text : String) (table : List (String × String)) : link.send text table = send text table := rfl

theorem link_remembers : link.Remembers fun table name => Assoc.get? name table where
  update {entries state state' r} h := by
    have hfetch : Console.recordCommand entries ≠ Console.fetchCommand := recordCommand_ne (by decide) entries
    have hclear : Console.recordCommand entries ≠ Console.clearCommand := recordCommand_ne (by decide) entries
    rw [link_send, send, if_neg hfetch, if_neg hclear, updates?_recordCommand] at h
    cases h
    exact assign_putOrdered entries state
  clear {state state' r} h := by
    have hfetch : Console.clearCommand ≠ Console.fetchCommand := by decide
    rw [link_send, send, if_neg hfetch, if_pos rfl] at h
    cases h
    rfl
  read {state state' r} h := by
    rw [link_send, send, if_pos rfl] at h
    by_cases hread : Console.fingerprints? (print state) = some state
    · rw [if_pos hread] at h
      cases h
      exact ⟨rfl, state, hread, rfl⟩
    · rw [if_neg hread] at h
      cases h
  other {text state state' r} hfetch hother h := by
    have hnone : updates? text = none := by
      cases hupdates : updates? text with
      | none => rfl
      | some entries => exact absurd (.inr ⟨entries, eq_recordCommand hupdates⟩) hother
    rw [link_send, send, if_neg hfetch, if_neg fun hclear => hother (.inl hclear), hnone] at h
    cases h
    rfl

end RemoteConsole.Ledger
