import Mathlib.Data.List.Nodup
import RemoteConsole.Link.Scripted
import RemoteConsole.Proofs.Assoc
import RemoteConsole.Proofs.Link.Failure
import RemoteConsole.Proofs.Session.Invoke
import RemoteConsole.Proofs.Session.Requests

/-!
# Calls over the life of a session

A session is asked for one thing after the other, over any link. A context is made once and has
its own number, and the numbers that count as known are those of the contexts that a probe of
their own found. So a call is sent only when its own context was seen, now or before.
-/

namespace RemoteConsole

open RemoteConsole.Action

variable {σ : Type}

namespace Session

/-- A probe in an earlier invocation of this very context was answered with true. -/
def SeenBefore (start : Session σ) (requests : List Request) (ctx : Context) : Prop :=
  ∃ before agent name args later, requests = before ++ .invoke agent name args :: later ∧
    (start.after before).contextAt? agent name = some ctx ∧ ctx.Seen (start.after before).console

theorem seenBefore_nil {start : Session σ} {ctx : Context} : ¬ start.SeenBefore [] ctx := by
  rintro ⟨before, agent, name, args, later, h, -⟩
  simp at h

theorem seenBefore_snoc {start : Session σ} {requests : List Request} {r : Request} {ctx : Context} :
    start.SeenBefore (requests ++ [r]) ctx ↔ start.SeenBefore requests ctx ∨
      ∃ agent name args, r = .invoke agent name args ∧
        (start.after requests).contextAt? agent name = some ctx ∧ ctx.Seen (start.after requests).console := by
  constructor
  · rintro ⟨before, agent, name, args, later, h, hat, hseen⟩
    rcases List.eq_nil_or_concat later with rfl | ⟨later, last, rfl⟩
    · obtain ⟨rfl, hr⟩ := List.append_inj' h rfl
      cases hr
      exact .inr ⟨agent, name, args, rfl, hat, hseen⟩
    · rw [List.concat_eq_append, ← List.cons_append, ← List.append_assoc] at h
      obtain ⟨rfl, -⟩ := List.append_inj' h rfl
      exact .inl ⟨before, agent, name, args, later, rfl, hat, hseen⟩
  · rintro (⟨before, agent, name, args, later, rfl, hat, hseen⟩ | ⟨agent, name, args, rfl, hat, hseen⟩)
    · exact ⟨before, agent, name, args, later ++ [r], by simp, hat, hseen⟩
    · exact ⟨requests, agent, name, args, [], rfl, hat, hseen⟩

end Session

/-! ## The contexts of a session -/

def Namespace.Within (made : List Context) (ns : Namespace ToolInstance) : Prop :=
  ∀ e ∈ ns.bindings, e.2.instance'.context ∈ made

namespace Session

/-- The contexts that a session made, in order; its namespaces hold no others. -/
structure Owned (made : List Context) (s : Session σ) : Prop where
  ids : made.map Context.id = List.range s.console.contexts
  held : ∀ ns ∈ s.namespaces, ns.Within made

def Keeps (made : List Context) (confirmed : List Nat) (s : Session σ) : Prop :=
  s.console.confirmed = confirmed ∧ ∃ later, Owned (made ++ later) s

variable {made : List Context} {confirmed : List Nat}

theorem Owned.eq_of_id {s : Session σ} (h : Owned made s) {ctx ctx' : Context} (hctx : ctx ∈ made)
    (hctx' : ctx' ∈ made) (hid : ctx.id = ctx'.id) : ctx = ctx' := by
  refine List.inj_on_of_nodup_map ?_ hctx hctx' hid
  rw [h.ids]
  exact List.nodup_range

theorem Owned.contextAt?_mem {s : Session σ} (h : Owned made s) {agent : Nat} {name : String}
    {ctx : Context} (hat : s.contextAt? agent name = some ctx) : ctx ∈ made := by
  obtain ⟨b, hb, rfl⟩ := Option.map_eq_some_iff.mp hat
  obtain ⟨ns, hns, hget⟩ := Option.bind_eq_some_iff.mp hb
  have hheld := h.held ns (List.mem_of_getElem? hns)
  unfold Namespace.get? at hget
  split at hget
  · rename_i found hfound
    cases hget
    exact hheld _ (Assoc.mem_of_get? hfound)
  · split at hget
    · obtain ⟨hfound, -⟩ := Option.filter_eq_some_iff.mp hget
      exact hheld _ (Assoc.mem_of_get? hfound)
    · cases hget

theorem Keeps.of_eq {s s' : Session σ} (h : Keeps made confirmed s) (hconsole : s'.console = s.console)
    (hnamespaces : s'.namespaces = s.namespaces) : Keeps made confirmed s' := by
  obtain ⟨hconfirmed, later, hids, hheld⟩ := h
  refine ⟨hconsole ▸ hconfirmed, later, hconsole ▸ hids, hnamespaces ▸ hheld⟩

end Session

/-! ## The link of a session -/

namespace Console

def Linked (l : Link σ) (c : Console σ) : Prop := c.wire.link = l

variable (l : Link σ)

theorem linked_onWire {α : Type} {x : Action (Wire σ) α} (hx : ∀ w, (x w).2.link = w.link) :
    Preserves (Linked l) (onWire x) := fun c h => (hx c.wire).trans h

theorem lasting_linked : Lasting (Linked l) where
  send command := by
    refine linked_onWire l fun w => ?_
    unfold Wire.send
    split
    · rfl
    · rfl
  registry _ h := h
  sendBatch entries := by
    refine linked_onWire l fun w => ?_
    unfold Wire.sendBatch
    split
    · rfl
    · rfl
  batch _ h := h
  clock _ h := h
  speed _ h := h
  rest _ _ _ _ h := h

end Console

theorem Session.link_after (s : Session σ) (requests : List Request) :
    (s.after requests).console.wire.link = s.console.wire.link :=
  (Console.lasting_linked s.console.wire.link).after (Console.linked_onWire _ fun _ => rfl) rfl requests

theorem Context.not_misled {c : Console σ} (h : c.wire.link.FailsInTransport) (ctx : Context) : ¬ ctx.Misled c := by
  rintro ⟨name, hname⟩
  obtain ⟨text, htext⟩ := (h ctx.probeCommand c.wire.state trivial).error hname
  cases htext

/-! ## What brings nothing new about contexts -/

namespace Console

def Beside (d c : Console σ) : Prop := c.confirmed = d.confirmed ∧ c.contexts = d.contexts

variable (d : Console σ)

theorem beside_onWire {α : Type} (x : Action (Wire σ) α) : Preserves (Beside d) (onWire x) :=
  preserves_zoom x fun _ _ h => h

theorem steady_beside : Steady (Beside d) where
  send _ := beside_onWire d _
  registry _ h := h
  sendBatch _ := beside_onWire d _
  batch _ h := h
  clock _ h := h

end Console

namespace Session

variable {made : List Context} {confirmed : List Nat}

theorem keeps_onConsole {α : Type} {x : Action (Console σ) α} (hx : ∀ d, Preserves (Console.Beside d) x) :
    Preserves (Keeps made confirmed) (onConsole x) := by
  rintro s ⟨hconfirmed, later, hids, hheld⟩
  obtain ⟨hsame, hcount⟩ := hx s.console s.console ⟨rfl, rfl⟩
  exact ⟨hsame.trans hconfirmed, later, hids.trans (congrArg List.range hcount.symm), hheld⟩

theorem keeps_updateNamespaces {f : Namespace ToolInstance → Namespace ToolInstance}
    (hf : ∀ (made : List Context) (ns : Namespace ToolInstance), ns.Within made → (f ns).Within made) :
    Preserves (Keeps made confirmed) (updateNamespaces (σ := σ) f) := by
  rintro s ⟨hconfirmed, later, hids, hheld⟩
  refine ⟨hconfirmed, later, hids, fun ns hns => ?_⟩
  obtain ⟨old, hold, rfl⟩ := List.mem_map.mp hns
  exact hf _ old (hheld old hold)

theorem keeps_clear : Preserves (Keeps made confirmed) (updateNamespaces (σ := σ) Namespace.clear) :=
  keeps_updateNamespaces fun _ _ _ _ he => absurd he List.not_mem_nil

/-! ## Binding -/

theorem bind_eq (d : CapabilityDirectory) (tool : Tool) {ns : Namespace ToolInstance} {s : Session σ}
    (h : Owned made s) (hns : ns.Within made) : ∃ ctx ns' s', bind d tool ns s = (.ok ns', s') ∧
      s'.console.confirmed = s.console.confirmed ∧ Owned (made ++ [ctx]) s' ∧ ns'.Within (made ++ [ctx]) := by
  refine ⟨⟨d.name, ns.agent, s.console.contexts⟩, _, _, rfl, rfl, ⟨?_, fun ns hns e he => ?_⟩, ?_⟩
  · rw [List.map_append, h.ids]
    exact List.range_succ.symm
  · exact List.mem_append_left _ (h.held ns hns e he)
  · intro e he
    rcases Assoc.mem_put he with rfl | he
    · exact List.mem_append_right _ (List.mem_singleton.mpr rfl)
    · exact List.mem_append_left _ (hns e he)

theorem mapM_bind_eq (d : CapabilityDirectory) (tool : Tool) :
    ∀ (l : List (Namespace ToolInstance)) {made : List Context} {s : Session σ}, Owned made s →
      (∀ ns ∈ l, ns.Within made) → ∃ later l' s', l.mapM (bind d tool) s = (.ok l', s') ∧
        s'.console.confirmed = s.console.confirmed ∧ Owned (made ++ later) s' ∧
        ∀ ns ∈ l', ns.Within (made ++ later)
  | [], made, s, h, _ => ⟨[], [], s, rfl, rfl, by rwa [List.append_nil], fun ns hns => absurd hns List.not_mem_nil⟩
  | ns :: l, made, s, h, hl => by
    obtain ⟨ctx, ns', s', hbind, hconfirmed, howned, hns'⟩ := bind_eq d tool h (hl ns List.mem_cons_self)
    obtain ⟨later, l', last, hmap, hconfirmed', howned', hl'⟩ := mapM_bind_eq d tool l howned
      fun ns hns e he => List.mem_append_left _ (hl ns (List.mem_cons_of_mem _ hns) e he)
    rw [List.append_assoc] at howned' hl'
    refine ⟨[ctx] ++ later, ns' :: l', last, ?_, hconfirmed'.trans hconfirmed, howned', ?_⟩
    · rw [List.mapM_cons, bind_ok hbind, bind_ok hmap]
      rfl
    · intro found hfound
      rcases List.mem_cons.mp hfound with rfl | hfound
      · intro e he
        rw [← List.append_assoc]
        exact List.mem_append_left _ (hns' e he)
      · exact hl' found hfound

theorem keeps_loadDirectory (d : CapabilityDirectory) :
    Preserves (Keeps made confirmed) (loadDirectory (σ := σ) d) := by
  unfold loadDirectory
  split
  · exact preserves_fail _
  rename_i tool _
  refine preserves_bind (keeps_onConsole fun c => (Console.steady_beside c).installTools _) fun _ => ?_
  rintro s ⟨hconfirmed, later, howned⟩
  obtain ⟨new, namespaces, s', hmap, hconfirmed', howned', hheld⟩ :=
    mapM_bind_eq d tool s.namespaces howned howned.held
  rw [List.append_assoc] at howned' hheld
  rw [read_bind, bind_ok hmap]
  exact ⟨hconfirmed'.trans hconfirmed, later ++ new, howned'.ids, hheld⟩

theorem keeps_load : Preserves (Keeps made confirmed) (load (σ := σ)) :=
  preserves_bind (preserves_read _) fun _ =>
    preserves_bind (preserves_forM keeps_loadDirectory _) fun _ => preserves_pure _

theorem keeps_close : Preserves (Keeps made confirmed) (close (σ := σ)) := by
  intro s h
  unfold close
  split
  · exact h
  have hidle := keeps_clear s h
  simp only
  split
  · exact hidle.of_eq rfl rfl
  · refine keeps_onConsole (Console.beside_onWire · Wire.close) _ ?_
    exact hidle.of_eq rfl rfl

theorem keeps_comeUp : Preserves (Keeps made confirmed) (comeUp (σ := σ)) :=
  preserves_bind (keeps_onConsole fun c => (Console.steady_beside c).bootstrap) fun _ =>
    preserves_bind keeps_load fun _ => preserves_modify fun _ h => h.of_eq rfl rfl

theorem keeps_reload : Preserves (Keeps made confirmed) (reload (σ := σ)) :=
  preserves_bind (keeps_onConsole fun c => (Console.steady_beside c).invalidate) fun _ =>
    preserves_bind keeps_clear fun _ => preserves_bind keeps_load fun _ => preserves_pure _

theorem keeps_execute (target : String) (params : List Value) (measured : Bool) :
    Preserves (Keeps made confirmed) (execute (σ := σ) target params measured) :=
  keeps_onConsole fun c => (Console.steady_beside c).perform _ _

theorem keeps_setGameSpeed (speed : Double) : Preserves (Keeps made confirmed) (setGameSpeed (σ := σ) speed) := by
  unfold setGameSpeed
  split
  · exact fun _ h => h
  refine preserves_bind (preserves_read _) fun known => ?_
  split
  · exact fun _ h => h
  exact preserves_bind (keeps_execute _ _ _) fun _ => keeps_onConsole fun _ => preserves_modify fun _ h => h

theorem keeps_setAdminVisible (agent : Nat) (visible : Bool) :
    Preserves (Keeps made confirmed) (setAdminVisible (σ := σ) agent visible) := by
  refine preserves_bind (preserves_namespace? agent) fun _ => preserves_modify ?_
  rintro s ⟨hconfirmed, later, hids, hheld⟩
  refine ⟨hconfirmed, later, hids, fun ns hns => ?_⟩
  obtain ⟨i, hi⟩ := List.mem_iff_getElem?.mp hns
  rw [List.getElem?_modify] at hi
  obtain ⟨old, hold, rfl⟩ := Option.map_eq_some_iff.mp hi
  have hwithin := hheld old (List.mem_of_getElem? hold)
  split
  · exact hwithin
  · exact hwithin

theorem keeps_beat : Preserves (Keeps made confirmed) (beat (σ := σ)) := by
  refine preserves_bind (preserves_read _) fun heartbeat => ?_
  split
  · exact preserves_pure _
  refine preserves_bind (preserves_attempt (keeps_onConsole fun c => (Console.steady_beside c).send _)) fun ending => ?_
  split
  · exact keeps_onConsole fun c => (Console.steady_beside c).recordTick _
  · exact preserves_pure _
  · exact preserves_modify fun _ h => h.of_eq rfl rfl

end Session

/-! ## One request -/

theorem Request.keeps_next {made : List Context} {confirmed : List Nat} {r : Request}
    (hr : r.isInvoke = false) {s : Session σ} (h : Session.Keeps made confirmed s) :
    Session.Keeps made confirmed (r.next s) := by
  have hconsole {α : Type} {x : Action (Console σ) α} (hx : ∀ d, Preserves (Console.Beside d) x) :
      Session.Keeps made confirmed (Session.onConsole x s).2 := Session.keeps_onConsole hx s h
  cases r with
  | invoke agent name args => cases hr
  | comeUp => exact Session.keeps_comeUp s h
  | hooks change => exact h.of_eq rfl rfl
  | wait d => exact hconsole fun c => preserves_modify fun _ h => h
  | execute target params measured => exact Session.keeps_execute target params measured s h
  | executeText text => exact hconsole fun c => (Console.steady_beside c).perform _ _
  | queue command => exact hconsole fun c => (Console.steady_beside c).queueIfOpen _
  | beginTransaction => exact hconsole fun c => (Console.steady_beside c).setBatch _
  | commit measured => exact hconsole fun c => (Console.steady_beside c).commit _
  | rollback => exact hconsole fun c => (Console.steady_beside c).setBatch _
  | installTools path => exact hconsole fun c => (Console.steady_beside c).installTools _
  | invalidate => exact hconsole fun c => (Console.steady_beside c).invalidate
  | edit files =>
    obtain ⟨hconfirmed, later, hids, hheld⟩ := h
    exact ⟨hconfirmed, later, hids, hheld⟩
  | reload => exact Session.keeps_reload s h
  | reset =>
    exact preserves_bind (Session.keeps_onConsole fun c => (Console.steady_beside c).setBatch .idle)
      (fun _ => Session.keeps_onConsole fun c => (Console.steady_beside c).updateClock (f := Clock.reset) fun _ => rfl) s h
  | advance elapsed => exact hconsole fun c => (Console.steady_beside c).updateClock fun _ => rfl
  | setGameSpeed speed => exact Session.keeps_setGameSpeed speed s h
  | setAdminVisible agent visible => exact Session.keeps_setAdminVisible agent visible s h
  | beat => exact Session.keeps_beat s h
  | stall => exact h.of_eq rfl rfl
  | close => exact Session.keeps_close s h

namespace Session

/-- What is known is what was seen before, and everything seen is a context of the session. -/
structure Recorded (start : Session σ) (requests : List Request) (made : List Context) : Prop where
  owned : Owned made (start.after requests)
  seen_made : ∀ ctx, start.SeenBefore requests ctx → ctx ∈ made
  confirmed : ∀ id, id ∈ (start.after requests).console.confirmed ↔
    ∃ ctx, ctx.id = id ∧ start.SeenBefore requests ctx

variable {made : List Context}

theorem recorded_new (console : Console σ) (hooks : Hooks) (hcontexts : console.contexts = 0)
    (hconfirmed : console.confirmed = []) : Recorded (new console hooks) [] [] where
  owned :=
    { ids := by
        have hnone : ((new console hooks).after []).console.contexts = 0 := hcontexts
        rw [hnone]
        rfl
      held := fun ns hns => by
        obtain ⟨agent, -, rfl⟩ := List.mem_map.mp hns
        exact fun _ he => absurd he List.not_mem_nil }
  seen_made := fun _ h => absurd h seenBefore_nil
  confirmed := fun id => by
    have hnone : ((new console hooks).after []).console.confirmed = [] := hconfirmed
    simp [hnone, seenBefore_nil]

theorem Recorded.known_iff {start : Session σ} {requests : List Request}
    (h : Recorded start requests made) {ctx : Context} (hctx : ctx ∈ made) :
    ctx.id ∈ (start.after requests).console.confirmed ↔ start.SeenBefore requests ctx := by
  rw [h.confirmed]
  constructor
  · rintro ⟨ctx', hid, hseen⟩
    rwa [← h.owned.eq_of_id (h.seen_made ctx' hseen) hctx hid]
  · exact fun hseen => ⟨ctx, rfl, hseen⟩

theorem Recorded.snoc_kept {start : Session σ} {requests : List Request} (h : Recorded start requests made)
    {r : Request} (hkeeps : Keeps made (start.after requests).console.confirmed (r.next (start.after requests)))
    (hseen : ∀ ctx, start.SeenBefore (requests ++ [r]) ctx ↔ start.SeenBefore requests ctx) :
    ∃ later, Recorded start (requests ++ [r]) (made ++ later) := by
  obtain ⟨hconfirmed, later, howned⟩ := hkeeps
  rw [← after_snoc] at hconfirmed howned
  refine ⟨later, howned, fun ctx hctx => ?_, fun id => ?_⟩
  · exact List.mem_append_left _ (h.seen_made ctx ((hseen ctx).mp hctx))
  · simp only [hconfirmed, h.confirmed, hseen]

theorem Recorded.snoc_invoke {start : Session σ} {requests : List Request} (h : Recorded start requests made)
    {agent : Nat} {name : String} (args : List Value) {ctx : Context}
    (hat : (start.after requests).contextAt? agent name = some ctx)
    (hidle : (start.after requests).console.batch.isOpen = false) :
    Recorded start (requests ++ [.invoke agent name args]) made := by
  obtain ⟨-, hcontexts, hconfirmed⟩ := ctx.invoked args hidle
  have hnext : start.after (requests ++ [.invoke agent name args]) =
      (onConsole (ctx.invoke args) (start.after requests)).2 := by
    rw [after_snoc, Request.next, hat]
  refine ⟨⟨?_, ?_⟩, fun found hfound => ?_, fun id => ?_⟩
  · rw [hnext, h.owned.ids]
    exact congrArg List.range hcontexts.symm
  · rw [hnext]
    exact h.owned.held
  · rcases seenBefore_snoc.mp hfound with hold | ⟨agent', name', args', hr, hat', -⟩
    · exact h.seen_made found hold
    · cases hr
      exact h.owned.contextAt?_mem hat'
  · rw [hnext]
    refine (hconfirmed id).trans ?_
    rw [h.confirmed]
    constructor
    · rintro (⟨found, hid, hold⟩ | ⟨rfl, hseen⟩)
      · exact ⟨found, hid, seenBefore_snoc.mpr (.inl hold)⟩
      · exact ⟨ctx, rfl, seenBefore_snoc.mpr (.inr ⟨agent, name, args, rfl, hat, hseen⟩)⟩
    · rintro ⟨found, rfl, hfound⟩
      rcases seenBefore_snoc.mp hfound with hold | ⟨agent', name', args', hr, hat', hseen⟩
      · exact .inl ⟨found, rfl, hold⟩
      · cases hr
        rw [hat] at hat'
        cases hat'
        exact .inr ⟨rfl, hseen⟩

/-- Whatever is asked next, what is known stays what was seen. -/
theorem Recorded.snoc {start : Session σ} {requests : List Request} (h : Recorded start requests made)
    (r : Request) : ∃ later, Recorded start (requests ++ [r]) (made ++ later) := by
  have hsame : Keeps made (start.after requests).console.confirmed (start.after requests) :=
    ⟨rfl, [], by rw [List.append_nil]; exact h.owned⟩
  by_cases hr : r.isInvoke = false
  · refine h.snoc_kept (Request.keeps_next hr hsame) fun ctx => seenBefore_snoc.trans (or_iff_left ?_)
    rintro ⟨agent, name, args, rfl, -⟩
    cases hr
  obtain ⟨agent, name, args, rfl⟩ : ∃ agent name args, r = .invoke agent name args := by
    cases r with
    | invoke agent name args => exact ⟨agent, name, args, rfl⟩
    | _ => exact absurd rfl hr
  cases hat : (start.after requests).contextAt? agent name with
  | none =>
    refine h.snoc_kept (by rw [Request.next, hat]; exact hsame) fun ctx =>
      seenBefore_snoc.trans (or_iff_left ?_)
    rintro ⟨agent', name', args', hr, hat', -⟩
    cases hr
    rw [hat] at hat'
    cases hat'
  | some ctx =>
    cases hopen : (start.after requests).console.batch.isOpen with
    | false => exact ⟨[], by rw [List.append_nil]; exact h.snoc_invoke args hat hopen⟩
    | true =>
      refine h.snoc_kept ?_ fun ctx => seenBefore_snoc.trans (or_iff_left ?_)
      · rw [Request.next, hat]
        simp only
        rw [onConsole, Action.zoom, ctx.invoke_open args hopen]
        exact ⟨rfl, [], by rw [List.append_nil]; exact ⟨h.owned.ids, h.owned.held⟩⟩
      · rintro ⟨-, -, -, -, -, d, hprobes, -⟩
        cases hprobes with
        | first hidle => rw [hopen] at hidle; cases hidle
        | again hidle => rw [hopen] at hidle; cases hidle

theorem recorded_after (config : Config) (files : FileTree) (registry : Registry) (wire : Wire σ)
    (hooks : Hooks) (requests : List Request) :
    ∃ made, Recorded (new (.new config files registry wire) hooks) requests made := by
  induction requests using List.reverseRecOn with
  | nil => exact ⟨[], recorded_new _ hooks rfl rfl⟩
  | append_singleton requests r ih =>
    obtain ⟨made, h⟩ := ih
    obtain ⟨later, h'⟩ := h.snoc r
    exact ⟨made ++ later, h'⟩

end Session

/-! ## Calls as requests -/

namespace Session

theorem leaves_parts {s : Session σ} {agent : Nat} {name : String} {ctx : Context}
    (hat : s.contextAt? agent name = some ctx) {c : Console σ} (h : Tool.Leaves ctx s.console c) :
    ∃ parts, (∀ r ∈ parts, r.IsPartOf agent name) ∧ { s with console := c } = s.after parts := by
  cases h with
  | nothing => exact ⟨[], by simp, rfl⟩
  | once args =>
    refine ⟨[.invoke agent name args], by simp [Request.IsPartOf], ?_⟩
    show _ = (Request.invoke agent name args).next s
    rw [after_invoke hat]
    rfl
  | twice d =>
    refine ⟨[.invoke agent name [], .wait d, .invoke agent name []], by simp [Request.IsPartOf], ?_⟩
    show _ = (Request.invoke agent name []).next ((Request.wait d).next ((Request.invoke agent name []).next s))
    rw [after_invoke hat]
    exact (after_invoke (s := (Request.wait d).next (onConsole (ctx.invoke []) s).2) hat []).symm

theorem call_parts (agent : Nat) (name : String) (args : List Value) (s : Session σ) :
    ∃ parts, (∀ r ∈ parts, r.IsPartOf agent name) ∧ (call agent name args s).2 = s.after parts := by
  rcases call_cases agent name args s with ⟨e, -, hcall⟩ | ⟨ns, binding, hooks, hns, hfind, -, hcall⟩
  · exact ⟨[], by simp, by rw [hcall]; rfl⟩
  · have hat : s.contextAt? agent name = some binding.instance'.context := by
      unfold Namespace.find at hfind
      split at hfind
      · rename_i found hget
        cases hfind
        rw [contextAt?, hns, Option.bind_some, hget]
        rfl
      · cases hfind
    obtain ⟨parts, hparts, hafter⟩ :=
      leaves_parts hat (binding.instance'.tool.call_leaves binding.instance'.context args s.console)
    refine ⟨parts ++ [.hooks fun _ => hooks], fun r hr => ?_, ?_⟩
    · rcases List.mem_append.mp hr with hr | hr
      · exact hparts r hr
      · rw [List.mem_singleton.mp hr]
        trivial
    · rw [after_snoc, ← hafter, hcall]
      rfl

/-! ## Every call -/

/-- **Calls.** In whatever way a session was used before, an invocation outside a batch sends its
call at most once, and only if a probe of this very context was answered with true, now or before;
it installs everything at most once, over a link that fails in the transport only after a denial;
once the context was seen only the call is sent; and the clock moves only with a call that was answered
well. Inside a batch one command is queued and that is all. -/
theorem invoke_after (config : Config) (files : FileTree) (registry : Registry) (wire : Wire σ) (hooks : Hooks)
    (requests : List Request) :
    let start := new (.new config files registry wire) hooks
    let s := start.after requests
    (∀ agent name args ctx, s.contextAt? agent name = some ctx →
      (s.console.batch.isOpen = false →
        (∃ first reinstall again calls,
          ctx.Invoked args s.console (start.SeenBefore requests ctx) first reinstall again calls ∧
          (wire.link.FailsInTransport → ctx.Denied first ∨
            reinstall = [] ∧ again = [] ∧ (ctx.invoke args s.console).2.registry = s.console.registry)) ∧
        (start.SeenBefore requests ctx →
          (ctx.invoke args s.console).2.wire = (Wire.send (ctx.invokeCommand args) s.console.wire).2)) ∧
      (s.console.batch.isOpen = true → (ctx.invoke args s.console).2 =
        { s.console with batch := ⟨true, s.console.batch.queue ++ [ctx.command args]⟩ })) ∧
    ∀ agent name args, ∃ parts, (∀ r ∈ parts, r.IsPartOf agent name) ∧
      (call agent name args s).2 = s.after parts := by
  intro start s
  obtain ⟨made, h⟩ := recorded_after config files registry wire hooks requests
  refine ⟨fun agent name args ctx hat => ⟨fun hidle => ?_, fun hopen => ?_⟩, fun agent name args => ?_⟩
  · have hknown := h.known_iff (h.owned.contextAt?_mem hat)
    obtain ⟨⟨first, reinstall, again, calls, hinvoked⟩, -⟩ := ctx.invoked args hidle
    refine ⟨⟨first, reinstall, again, calls, ?_, fun hlink => ?_⟩, fun hseen => ?_⟩
    · exact { hinvoked with known := fun hcalls => (hinvoked.known hcalls).imp_left hknown.mp }
    · have hlinked : s.console.wire.link.FailsInTransport := by
        rw [start.link_after requests]
        exact hlink
      -- such a link makes up no mismatch of its own
      rcases hinvoked.asked.reinstall_cases with hquiet | ⟨hdenied | hmisled, -⟩
      · exact .inr hquiet
      · exact .inl hdenied
      · exact absurd hmisled (ctx.not_misled hlinked)
    · exact Context.invoke_known hidle (hknown.mpr hseen) args
  · rw [ctx.invoke_open args hopen, ← hopen]
    rfl
  · exact call_parts agent name args s

def sleepFiles : FileTree := .directory [("tools", .directory [("agent", .directory [("sleep",
  .directory [("client", .file []), ("server", .file [])])])])]

def sleepConfig : Config := { Config.default with scripts := ⟨"lib", "tools", true, []⟩ }

def sleepWire (answer : String) : Wire (List Rule) :=
  .connect (Scripted.link false) [⟨.contains "~= nil", none, .reply answer⟩]

def resting (answer : String) : Session (List Rule) :=
  new (.new sleepConfig sleepFiles (.empty true) (sleepWire answer)) .empty

def sleeper : Context := ⟨"sleep", 0, 0⟩

def slept : List Request := [.comeUp, .invoke 0 "sleep" []]

def rested : Session (List Rule) := (resting "true").after slept

def queueing : Session (List Rule) := (resting "true").after (slept ++ [.beginTransaction])

def unrested : Session (List Rule) := (resting "false").after [.comeUp]

theorem invoke_after_rest :
    (rested.contextAt? 0 "sleep" = some sleeper ∧ (resting "true").SeenBefore slept sleeper ∧
      (sleeper.invoke [] rested.console).2.wire = (Wire.send (sleeper.invokeCommand []) rested.console.wire).2) ∧
    (sleeper.invoke [] queueing.console).2 = { queueing.console with batch := ⟨true, [sleeper.command []]⟩ } ∧
    ∃ first reinstall again calls, sleeper.Invoked [] unrested.console ((resting "false").SeenBefore [.comeUp] sleeper)
      first reinstall again calls ∧ sleeper.Denied first := by
  refine ⟨?_, ?_, ?_⟩
  · obtain ⟨hat, hidle, hknown⟩ : rested.contextAt? 0 "sleep" = some sleeper ∧
        rested.console.batch.isOpen = false ∧ 0 ∈ rested.console.confirmed := by decide +kernel
    obtain ⟨made, h⟩ := recorded_after sleepConfig sleepFiles (.empty true) (sleepWire "true") .empty slept
    have hseen : (resting "true").SeenBefore slept sleeper := (h.known_iff (h.owned.contextAt?_mem hat)).mp hknown
    obtain ⟨hcalls, -⟩ := invoke_after sleepConfig sleepFiles (.empty true) (sleepWire "true") .empty slept
    exact ⟨hat, hseen, ((hcalls 0 "sleep" [] sleeper hat).1 hidle).2 hseen⟩
  · obtain ⟨hat, hopen, hqueue⟩ : queueing.contextAt? 0 "sleep" = some sleeper ∧
        queueing.console.batch.isOpen = true ∧ queueing.console.batch.queue = [] := by decide +kernel
    obtain ⟨hcalls, -⟩ :=
      invoke_after sleepConfig sleepFiles (.empty true) (sleepWire "true") .empty (slept ++ [.beginTransaction])
    have hqueued : (sleeper.invoke [] queueing.console).2 =
        { queueing.console with batch := ⟨true, queueing.console.batch.queue ++ [sleeper.command []]⟩ } :=
      (hcalls 0 "sleep" [] sleeper hat).2 hopen
    rw [hqueued, hqueue, List.nil_append]
  · obtain ⟨hat, hidle, hgrown⟩ : unrested.contextAt? 0 "sleep" = some sleeper ∧
        unrested.console.batch.isOpen = false ∧
        unrested.console.wire.exchanges.length + 2 < (sleeper.invoke [] unrested.console).2.wire.exchanges.length := by
      decide +kernel
    obtain ⟨hcalls, -⟩ := invoke_after sleepConfig sleepFiles (.empty true) (sleepWire "false") .empty [.comeUp]
    obtain ⟨⟨first, reinstall, again, calls, hinvoked, hcause⟩, -⟩ := (hcalls 0 "sleep" [] sleeper hat).1 hidle
    refine ⟨first, reinstall, again, calls, hinvoked, ?_⟩
    rcases hcause (Scripted.failsInTransport false) with hdenied | ⟨rfl, rfl, -⟩
    · exact hdenied
    · -- a probe and a call alone are fewer than what was sent
      have h : sleeper.Invoked [] unrested.console ((resting "false").SeenBefore [.comeUp] sleeper) first [] [] calls :=
        hinvoked
      have hlog : (sleeper.invoke [] unrested.console).2.wire.exchanges.length =
          unrested.console.wire.exchanges.length + (first.length + calls.length) := by
        simp only [h.log, List.length_append, List.length_nil, Nat.add_zero]
      have hfirst : first.length ≤ 1 := by rcases h.asked.first_cases with rfl | ⟨reply, rfl⟩ <;> simp
      have hcalls : calls.length ≤ 1 := by rcases h.calls_cases with rfl | ⟨reply, rfl⟩ <;> simp
      omega

end Session

end RemoteConsole
