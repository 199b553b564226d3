import RemoteConsole.Capability.Context
import RemoteConsole.Proofs.Script.Literal
import RemoteConsole.Proofs.Session.Ledger
import RemoteConsole.Proofs.Table.Unique

/-!
# Commands that are put together

The commands that ask for a capability, that call it and that record fingerprints are put together
from fixed texts and literals. Whatever the literals hold, the whole passes the check of scripts; and
the text of a call is the text of no other call.
-/

namespace RemoteConsole

open Script
open Text (stops_cons)

/-! ## Recording -/

theorem passes_assignment (e : String × String) (rest : List Char) :
    Passes ((Ledger.assignment e).toList ++ rest) rest := by
  have htext : (Ledger.assignment e).toList ++ rest = "global.fingerprints".toList ++
      '[' :: (quote e.1.toList ++ ']' :: (" = ".toList ++ (quote e.2.toList ++ rest))) := by
    simp [Ledger.toList_assignment]
  rw [htext]
  refine (passes_fixed rfl (stops_cons _ rfl)).trans ?_
  calc Passes ('[' :: (quote e.1.toList ++ ']' :: (" = ".toList ++ (quote e.2.toList ++ rest))))
          (" = ".toList ++ (quote e.2.toList ++ rest)) := passes_index _ _
    Passes _ (quote e.2.toList ++ rest) := passes_fixed rfl (stops_cons _ rfl)
    Passes _ rest := passes_quote _ _

theorem passes_assignments (entries : List (String × String)) : Passes (Ledger.joined entries) [] := by
  induction entries with
  | nil => exact .refl []
  | cons e entries ih =>
    cases entries with
    | nil =>
      rw [Ledger.joined_last]
      simpa using passes_assignment e []
    | cons f entries =>
      have hseparator : Passes ("; ".toList ++ Ledger.joined (f :: entries)) (Ledger.joined (f :: entries)) := by
        have hsemicolon : Passes (';' :: ' ' :: Ledger.joined (f :: entries)) (' ' :: Ledger.joined (f :: entries)) :=
          passes_symbol (by decide)
        exact hsemicolon.trans (passes_symbol (by decide))
      rw [Ledger.joined_more]
      exact (passes_assignment e _).trans (hseparator.trans ih)

theorem passes_recordCommand (entries : List (String × String)) : Passes (Console.recordCommand entries).toList [] := by
  have htext : (Console.recordCommand entries).toList =
      "/sc global.fingerprints = global.fingerprints or ".toList ++ '{' :: '}' :: ';' :: ' ' :: Ledger.joined entries := by
    have hopening : Ledger.opening.toList =
        "/sc global.fingerprints = global.fingerprints or ".toList ++ ['{', '}', ';', ' '] := by
      unfold Ledger.opening
      rw [String.toList_ofList, String.toList_ofList]
      rfl
    rw [Ledger.toList_recordCommand, hopening, List.append_assoc]
    rfl
  rw [htext]
  refine (passes_fixed rfl (stops_cons _ rfl)).trans ?_
  calc Passes ('{' :: '}' :: ';' :: ' ' :: Ledger.joined entries) (';' :: ' ' :: Ledger.joined entries) :=
        passes_curly (.refl _)
    Passes _ (' ' :: Ledger.joined entries) := passes_symbol (by decide)
    Passes _ (Ledger.joined entries) := passes_symbol (by decide)
    Passes _ [] := passes_assignments entries

/-! ## Asking and calling -/

namespace Context

variable (ctx : Context)

theorem toList_key : ctx.key.toList = quote ctx.capability.toList := Ledger.toList_literal _

theorem toList_probeCommand : ctx.probeCommand.toList =
    "/sc rcon.print".toList ++ '(' :: ("global.actions ~= nil and global.actions".toList ++
      '[' :: (quote ctx.capability.toList ++ ']' :: (" ~= nil".toList ++ [')']))) := by
  have hstring (s : String) : toString s = s := rfl
  have hfront : "/sc rcon.print(global.actions ~= nil and global.actions[".toList =
      "/sc rcon.print".toList ++ '(' :: ("global.actions ~= nil and global.actions".toList ++ ['[']) := by
    rw [String.toList_ofList, String.toList_ofList, String.toList_ofList]
    rfl
  have hback : "] ~= nil)".toList = ']' :: (" ~= nil".toList ++ [')']) := by
    rw [String.toList_ofList, String.toList_ofList]
    rfl
  unfold probeCommand
  simp only [hstring, String.toList_append, toList_key, hfront, hback, List.append_assoc, List.cons_append, List.nil_append]

def reporting : List Char := "; rcon.print(dump(\x7ba = a, b = b\x7d))".toList

theorem toList_invokeCommand (args : List Value) : (ctx.invokeCommand args).toList =
    "/command local a, b = pcall".toList ++ '(' :: ("global.actions".toList ++
      '[' :: (quote ctx.capability.toList ++ ']' :: ',' :: ' ' ::
        (literalItems (Value.ofNat ctx.agent :: args) ++ ')' :: reporting))) := by
  have hstring (s : String) : toString s = s := rfl
  have hcall : "local a, b = pcall(global.actions[".toList =
      "local a, b = pcall".toList ++ '(' :: ("global.actions".toList ++ ['[']) := by
    rw [String.toList_ofList, String.toList_ofList, String.toList_ofList]
    rfl
  have hcomma : "], ".toList = [']', ',', ' '] := String.toList_ofList
  have hreport : "); rcon.print(dump(".toList ++ "\x7ba = a, b = b\x7d))".toList = ')' :: reporting := by
    unfold reporting
    rw [String.toList_ofList, String.toList_ofList, String.toList_ofList]
    rfl
  have hmeasured : "/command local a, b = pcall".toList = "/command ".toList ++ "local a, b = pcall".toList := by
    rw [String.toList_ofList, String.toList_ofList, String.toList_ofList]
    rfl
  unfold invokeCommand Command.envelope argumentText
  simp only [if_true, hstring, String.toList_append, String.toList_ofList, toList_key, hcall, hcomma, hreport, hmeasured,
    List.append_assoc, List.cons_append, List.nil_append]

theorem passes_probeCommand : Passes ctx.probeCommand.toList [] := by
  rw [toList_probeCommand]
  refine (passes_fixed rfl (stops_cons _ rfl)).trans (passes_round ?_)
  refine (passes_fixed rfl (stops_cons _ rfl)).trans ?_
  refine (passes_index _ _).trans ?_
  exact passes_fixed rfl (stops_cons _ rfl)

theorem passes_reporting : Passes reporting [] := by
  have htext : reporting = "; rcon.print".toList ++ '(' :: ("dump".toList ++
      '(' :: '{' :: ("a = a, b = b".toList ++ ['}', ')', ')'])) := by
    unfold reporting
    rw [String.toList_ofList, String.toList_ofList, String.toList_ofList, String.toList_ofList]
    rfl
  rw [htext]
  refine (passes_fixed rfl (stops_cons _ rfl)).trans (passes_round ?_)
  refine (passes_fixed rfl (stops_cons _ rfl)).trans (passes_round (passes_curly ?_))
  exact passes_fixed rfl (stops_cons _ rfl)

theorem passes_invokeCommand (args : List Value) : Passes (ctx.invokeCommand args).toList [] := by
  rw [toList_invokeCommand]
  generalize Value.ofNat ctx.agent :: args = actuals
  refine (passes_fixed rfl (stops_cons _ rfl)).trans ((passes_round ?_).trans passes_reporting)
  refine (passes_fixed rfl (stops_cons _ rfl)).trans ?_
  calc Passes ('[' :: (quote ctx.capability.toList ++ ']' :: ',' :: ' ' :: (literalItems actuals ++ ')' :: reporting)))
          (',' :: ' ' :: (literalItems actuals ++ ')' :: reporting)) := passes_index _ _
    Passes _ (' ' :: (literalItems actuals ++ ')' :: reporting)) := passes_symbol (by decide)
    Passes _ (literalItems actuals ++ ')' :: reporting) := passes_symbol (by decide)
    Passes _ (')' :: reporting) := passes_literalItems _ (stops_cons _ rfl)

/-! ## What a call says -/

theorem ofNat_inj {n m : Nat} (hn : n < 2 ^ 63) (hm : m < 2 ^ 63) (h : Value.ofNat n = Value.ofNat m) : n = m := by
  have hint := congrArg Int64.toInt (Value.integer.inj h)
  rw [Int64.toInt_ofInt_of_le (by omega) (by omega), Int64.toInt_ofInt_of_le (by omega) (by omega)] at hint
  omega

/-- **Calls with one text are one call**: of one capability, for one agent and with arguments of one
canonical form. -/
theorem invokeCommand_inj {ctx ctx' : Context} {args args' : List Value} (hagent : ctx.agent < 2 ^ 63)
    (hagent' : ctx'.agent < 2 ^ 63) (hargs : ∀ v ∈ args, v.DistinctKeys) (hargs' : ∀ v ∈ args', v.DistinctKeys) :
    ctx.invokeCommand args = ctx'.invokeCommand args' ↔
      ctx.capability = ctx'.capability ∧ ctx.agent = ctx'.agent ∧ args.map Value.canon = args'.map Value.canon := by
  have hactuals {n : Nat} {l : List Value} (hl : ∀ v ∈ l, v.DistinctKeys) : ∀ v ∈ Value.ofNat n :: l, v.DistinctKeys := by
    intro v hv
    rcases List.mem_cons.mp hv with rfl | hv
    · exact .integer _
    · exact hl v hv
  rw [← String.toList_inj, toList_invokeCommand, toList_invokeCommand]
  constructor
  · intro h
    rw [List.append_cancel_left_eq, List.cons.injEq, List.append_cancel_left_eq, List.cons.injEq] at h
    obtain ⟨hcapability, hmore⟩ := Table.quote_append_inj h.2.2
    simp only [List.cons.injEq, true_and] at hmore
    obtain ⟨hnodes, -⟩ := Table.literalItems_append_inj hmore
    have hcanon := Table.map_canon_eq_of_node (hactuals hargs) (hactuals hargs') hnodes
    obtain ⟨hnumber, hvalues⟩ := List.cons.inj hcanon
    exact ⟨hcapability, ofNat_inj hagent hagent' hnumber, hvalues⟩
  · rintro ⟨hcapability, hnumber, hvalues⟩
    have hcanon : (Value.ofNat ctx.agent :: args).map Value.canon = (Value.ofNat ctx'.agent :: args').map Value.canon := by
      rw [List.map_cons, List.map_cons, hnumber, hvalues]
    rw [Table.literalItems_congr hcanon, hcapability]

/-- An empty map is written as an empty list, but no string imitates further arguments. -/
theorem invokeCommand_inj_build :
    invokeCommand ⟨"build", 1, 0⟩ [.string "x", .map []] = invokeCommand ⟨"build", 1, 0⟩ [.string "x", .list []] ∧
      invokeCommand ⟨"build", 1, 0⟩ [.string "x", .list []] ≠ invokeCommand ⟨"build", 1, 0⟩ [.string "x\", \x7b\x7d"] := by
  have hagent : 1 < 2 ^ 63 := by decide
  have hpair {v : Value} (hv : v.DistinctKeys) : ∀ w ∈ [.string "x", v], w.DistinctKeys := by
    intro w hw
    rcases List.mem_pair.mp hw with rfl | rfl
    · exact .string "x"
    · exact hv
  have hempty : (Value.map []).DistinctKeys := .map .nil (List.forall_mem_nil _)
  have hmap := hpair hempty
  have hlist := hpair (.list (List.forall_mem_nil _))
  refine ⟨(invokeCommand_inj hagent hagent hmap hlist).mpr ⟨rfl, rfl, rfl⟩, fun h => ?_⟩
  have hlength := congrArg List.length ((invokeCommand_inj hagent hagent hlist (by simpa using .string _)).mp h).2.2
  cases hlength

end Context

/-- **No name and no argument breaks a command**: the commands that ask for a capability, that call
it and that record fingerprints pass the check. -/
theorem commands_pass (ctx : Context) (args : List Value) (entries : List (String × String)) :
    check ctx.probeCommand.toList = .ok () ∧ check (ctx.invokeCommand args).toList = .ok () ∧
      check (Console.recordCommand entries).toList = .ok () :=
  ⟨check_of_passes ctx.passes_probeCommand, check_of_passes (ctx.passes_invokeCommand args),
    check_of_passes (passes_recordCommand entries)⟩

end RemoteConsole
