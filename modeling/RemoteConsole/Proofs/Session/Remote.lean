import Mathlib.Logic.Function.Basic
import RemoteConsole.Proofs.Session.Start

/-!
# Remote sides that keep the table

A remote side keeps the table of fingerprints from one session to the next. While a session comes
up, what its mirror says is what this table says, round after round.
-/

namespace RemoteConsole

open Script (Fragment)

variable {σ : Type}

def assign (entries : List (String × String)) (table : String → Option String) : String → Option String :=
  entries.foldl (fun table e => Function.update table e.1 (some e.2)) table

theorem assign_putOrdered : ∀ (entries table : List (String × String)),
    (Assoc.get? · (entries.foldl (fun table e => Assoc.putOrdered e.1 e.2 table) table)) = assign entries (Assoc.get? · table)
  | [], _ => rfl
  | (name, hash) :: entries, table => by
    have hput : (Assoc.get? · (Assoc.putOrdered name hash table)) = Function.update (Assoc.get? · table) name (some hash) := by
      funext other
      by_cases h : other = name
      · rw [h, Function.update_self]
        exact Assoc.get?_putOrdered_self _
      · rw [Function.update_of_ne h]
        exact Assoc.get?_putOrdered_ne h _
    exact (assign_putOrdered entries _).trans (congrArg (assign entries) hput)

def Console.IsTableCommand (text : String) : Prop :=
  text = clearCommand ∨ ∃ entries, text = recordCommand entries

/-- A remote side with a table: updates are stored, clearing empties it, reading prints it so that it
reads back, and nothing else bears on it. -/
structure Link.Remembers (link : Link σ) (table : σ → String → Option String) : Prop where
  update {entries : List (String × String)} {state state' : σ} {r : LinkReply} :
    link.send (Console.recordCommand entries) state = (.ok r, state') → table state' = assign entries (table state)
  clear {state state' : σ} {r : LinkReply} :
    link.send Console.clearCommand state = (.ok r, state') → table state' = fun _ => none
  read {state state' : σ} {r : LinkReply} :
    link.send Console.fetchCommand state = (.ok r, state') → table state' = table state ∧
      ∃ mirror, Console.fingerprints? r.text = some mirror ∧ (Assoc.get? · mirror) = table state
  other {text : String} {state state' : σ} {r : LinkReply} :
    text ≠ Console.fetchCommand → ¬ Console.IsTableCommand text → link.send text state = (.ok r, state') →
      table state' = table state

namespace Registry

def hashes (r : Registry) : String → Option String := (Assoc.get? · r.mirror)

theorem hashes_record (entries : List (String × String)) (r : Registry) :
    (r.record entries).hashes = assign entries r.hashes := assign_putOrdered entries r.mirror

/-! ## The mirror and the table -/

/-- No script that is installed from these lists is itself a command about the table. -/
def Harmless (lists : List (List String)) (r : Registry) : Prop :=
  ∀ names ∈ lists, ∀ name ∈ names, ∀ f, r.get? name = some f → ¬ Console.IsTableCommand (Console.uploadText f)

end Registry

namespace Wire

theorem Answered.split {w w' : Wire σ} : ∀ {said more : List (String × String)}, w.Answered (said ++ more) w' →
    ∃ middle, w.Answered said middle ∧ middle.Answered more w'
  | [], _, h => ⟨w, .nil w, h⟩
  | _ :: _, _, .cons hsend h => by
    obtain ⟨middle, hsaid, hmore⟩ := h.split
    exact ⟨middle, .cons hsend hsaid, hmore⟩

variable {table : σ → String → Option String}

theorem Answered.same_table {w w' : Wire σ} {said : List (String × String)} (h : w.Answered said w')
    (hlink : w.link.Remembers table) (hsaid : ∀ text ∈ said.map Prod.fst, ¬ Console.IsTableCommand text) :
    table w'.state = table w.state := by
  induction h with
  | nil => rfl
  | @cons w w₁ w' text r said hsend _ ih =>
    obtain ⟨hstate, hsame, -⟩ := send_ok hsend
    have hrest := ih (by rw [hsame]; exact hlink) fun text ht => hsaid text (List.mem_cons_of_mem _ ht)
    refine hrest.trans ?_
    by_cases hfetch : text = Console.fetchCommand
    · subst hfetch
      exact (hlink.read hstate).1
    · exact hlink.other hfetch (hsaid text List.mem_cons_self) hstate

theorem Answered.round_table {w w' : Wire σ} {said : List (String × String)} {due : List Fragment}
    (h : w.Answered said w') (hlink : w.link.Remembers table) (hsaid : said.map Prod.fst = Console.round due)
    (hdue : ∀ f ∈ due, ¬ Console.IsTableCommand (Console.uploadText f)) :
    table w'.state = assign (due.map Fragment.entry) (table w.state) := by
  obtain ⟨uploads, updates, rfl, huploads, hupdates⟩ := List.map_eq_append_iff.mp hsaid
  obtain ⟨middle, hup, hrest⟩ := h.split
  have hsame : table middle.state = table w.state := by
    refine hup.same_table hlink fun text ht => ?_
    rw [huploads] at ht
    obtain ⟨f, hf, rfl⟩ := List.mem_map.mp ht
    exact hdue f hf
  cases due with
  | nil =>
    obtain rfl : updates = [] := List.map_eq_nil_iff.mp hupdates
    cases hrest
    exact hsame
  | cons f due =>
    rw [List.isEmpty_cons, if_neg (by decide)] at hupdates
    cases hrest with
    | nil => cases hupdates
    | @cons _ _ _ text r said hsend hrest =>
      obtain ⟨htext, hnone⟩ := List.cons.inj hupdates
      obtain rfl := List.map_eq_nil_iff.mp hnone
      cases hrest
      obtain rfl : text = Console.recordCommand ((f :: due).map Fragment.entry) := htext
      obtain ⟨hstate, -⟩ := send_ok hsend
      rw [hup.link_eq] at hstate
      rw [← hsame]
      exact hlink.update hstate

theorem Answered.rounds_table : ∀ {lists : List (List String)} {r : Registry} {w w' : Wire σ}
    {said : List (String × String)}, w.Answered said w' → w.link.Remembers table →
      said.map Prod.fst = r.rounds lists → r.Harmless lists → r.hashes = table w.state →
        (r.installedAll lists).hashes = table w'.state
  | [], r, w, w', said, h, _, hsaid, _, hagree => by
    obtain rfl : said = [] := List.map_eq_nil_iff.mp hsaid
    cases h
    exact hagree
  | names :: lists, r, w, w', said, h, hlink, hsaid, hharmless, hagree => by
    obtain ⟨first, rest, rfl, hfirst, hrest⟩ := List.map_eq_append_iff.mp hsaid
    obtain ⟨middle, hround, hrounds⟩ := h.split
    have hdue : ∀ f ∈ r.due names, ¬ Console.IsTableCommand (Console.uploadText f) := by
      intro f hf
      obtain ⟨⟨name, hname, hget⟩, -⟩ := Registry.mem_due.mp hf
      exact hharmless names List.mem_cons_self name hname f hget
    have htable := hround.round_table hlink hfirst hdue
    rw [Registry.installedAll_cons]
    refine hrounds.rounds_table (by rw [hround.link_eq]; exact hlink) hrest
      (fun names hn => hharmless names (List.mem_cons_of_mem _ hn)) ?_
    rw [htable, ← hagree]
    exact Registry.hashes_record _ r

end Wire

end RemoteConsole
