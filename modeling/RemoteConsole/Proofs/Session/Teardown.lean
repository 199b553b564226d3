import RemoteConsole.Link.Scripted
import RemoteConsole.Proofs.Session.Requests
import RemoteConsole.Proofs.Session.Start

/-!
# The end of a session

A session without a heartbeat closes its link once: at the end of a failed start, or when it is
closed for the first time, whatever it was asked for before. Closing it again does nothing.
-/

namespace RemoteConsole

open RemoteConsole.Action

variable {σ : Type}

/-! ## How often the link is closed -/

def Wire.closings (w : Wire σ) : Nat := w.sent.count .close

theorem Wire.closings_transmit {α : Type} {item : Sent} (hitem : item ≠ .close) (text : α → Option String)
    (request : Action σ α) (w : Wire σ) : (transmit item text request w).2.closings = w.closings := by
  show ((w.exchanges ++ [_]).map Exchange.item).count Sent.close = _
  rw [List.map_append, List.count_append, List.map_singleton, List.count_singleton, if_neg (by simpa using hitem)]
  rfl

theorem Wire.close_exchanges (w : Wire σ) : (close w).2.exchanges = w.exchanges ++ [⟨.close, none⟩] := by
  unfold close transmit
  cases w.link.close w.state with
  | mk outcome state => cases outcome <;> rfl

theorem Wire.closings_close (w : Wire σ) : (close w).2.closings = w.closings + 1 := by
  unfold closings sent
  rw [close_exchanges, List.map_append, List.count_append]
  rfl

namespace Console

/-- The link was closed that often, and the session has no heartbeat. -/
structure Untorn (k : Nat) (c : Console σ) : Prop where
  closings : c.wire.closings = k
  interval : c.config.session.heartbeatInterval = 0

theorem untorn_onWire {α : Type} {k : Nat} {x : Action (Wire σ) α} (hx : ∀ w, (x w).2.closings = w.closings) :
    Preserves (Untorn k) (onWire x) := fun c h => ⟨(hx c.wire).trans h.closings, h.interval⟩

theorem steady_untorn (k : Nat) : Steady (Untorn (σ := σ) k) where
  send command := by
    refine untorn_onWire fun w => ?_
    unfold Wire.send
    split
    · rfl
    · exact Wire.closings_transmit (by intro h; cases h) _ _ w
  registry _ h := ⟨h.closings, h.interval⟩
  sendBatch entries := by
    refine untorn_onWire fun w => ?_
    unfold Wire.sendBatch
    split
    · rfl
    · exact Wire.closings_transmit (by intro h; cases h) _ _ w
  batch _ h := ⟨h.closings, h.interval⟩
  clock _ h := ⟨h.closings, h.interval⟩

theorem lasting_untorn (k : Nat) : Lasting (Untorn (σ := σ) k) where
  toSteady := steady_untorn k
  speed _ h := ⟨h.closings, h.interval⟩
  rest _ _ _ _ h := ⟨h.closings, h.interval⟩

end Console

/-! ## Before the session is closed -/

namespace Session

/-- The session is not closed, it has no heartbeat, and its link was closed that often. Whether it
came up, and its hooks, are as the property says. -/
structure Unclosed (k : Nat) (Q : Hooks → Bool → Prop) (s : Session σ) : Prop where
  closed : s.closed = false
  heartbeat : s.heartbeat = none
  console : s.console.Untorn k
  rest : Q s.hooks s.ready

variable {k : Nat} {Q : Hooks → Bool → Prop}

theorem follows_unclosed : Follows (Console.Untorn k) (Unclosed (σ := σ) k Q) where
  onConsole hx s h := ⟨h.closed, h.heartbeat, hx s.console h.console, h.rest⟩
  namespaces _ h := ⟨h.closed, h.heartbeat, h.console, h.rest⟩

theorem unclosed_load : Preserves (Unclosed (σ := σ) k Q) load :=
  follows_unclosed.load (Console.steady_untorn k).toFramed fun _ h => ⟨h.closings, h.interval⟩

theorem beat_none {s : Session σ} (h : s.heartbeat = none) : beat s = (.ok (), s) := by
  unfold beat
  rw [read_bind, h]
  rfl

theorem unclosed_stall : Preserves (Unclosed (σ := σ) k Q) stall :=
  preserves_modify fun s h => ⟨h.closed, by rw [h.heartbeat]; rfl, h.console, h.rest⟩

theorem unclosed_comeUp (hQ : ∀ hooks ready, Q hooks ready → Q hooks true) :
    Preserves (Unclosed (σ := σ) k Q) comeUp := by
  refine preserves_bind (follows_unclosed.onConsole (Console.steady_untorn k).bootstrap) fun _ => ?_
  refine preserves_bind unclosed_load fun _ => preserves_modify fun s h => ⟨h.closed, ?_, h.console, hQ _ _ h.rest⟩
  show (if s.console.config.session.heartbeatInterval > 0 then some Heartbeat.running else none) = none
  rw [h.console.interval]
  rfl

end Session

abbrev Session.Up (k : Nat) (s : Session σ) : Prop := s.Unclosed k fun _ ready => ready = true

theorem Request.up_next {k : Nat} {r : Request} (hr : r ≠ .close) {s : Session σ} (h : s.Up k) : (r.next s).Up k := by
  cases r with
  | comeUp => exact Session.unclosed_comeUp (Q := fun _ ready => ready = true) (fun _ _ _ => rfl) s h
  | hooks change => exact ⟨h.closed, h.heartbeat, h.console, h.rest⟩
  | beat =>
    show (Session.beat s).2.Up k
    rw [Session.beat_none h.heartbeat]
    exact h
  | stall => exact Session.unclosed_stall s h
  | close => exact absurd rfl hr
  | _ =>
    refine Session.follows_unclosed.next (Console.lasting_untorn k) ?_ h
    exact id

namespace Session

theorem up_after {k : Nat} {s : Session σ} (h : s.Up k) :
    ∀ requests : List Request, (∀ r ∈ requests, r ≠ .close) → (s.after requests).Up k := by
  intro requests
  induction requests using List.reverseRecOn with
  | nil => intro _; exact h
  | append_singleton requests r ih =>
    intro hall
    rw [after_snoc]
    apply Request.up_next
    · exact hall r (by simp)
    · exact ih fun r hr => hall r (List.mem_append_left _ hr)

/-! ## Closing -/

def closes : Nat → Session σ → List (Outcome Unit) × Session σ
  | 0, s => ([], s)
  | n + 1, s => ((close s).1 :: (closes n (close s).2).1, (closes n (close s).2).2)

/-- The link was closed once more than that, nothing is bound any longer, and closing does nothing. -/
structure TornDown (k : Nat) (s : Session σ) : Prop where
  closings : s.console.wire.closings = k + 1
  unbound : ∀ ns ∈ s.namespaces, ns.bindings = []
  closes : ∀ n, closes n s = (List.replicate n (.ok ()), s)

theorem close_closed {s : Session σ} (h : s.closed = true) : close s = (.ok (), s) := by
  rw [close, if_pos h]

theorem closes_closed {s : Session σ} (h : s.closed = true) : ∀ n, closes n s = (List.replicate n (.ok ()), s)
  | 0 => rfl
  | n + 1 => by rw [closes, close_closed h, closes_closed h n]; rfl

section
variable {k : Nat} {Q : Hooks → Bool → Prop} {s : Session σ} (h : s.Unclosed k Q)
include h

theorem close_unclosed : close s = ((s.console.wire.link.close s.console.wire.state).1, { s with
    closed := true
    hooks := if s.ready then s.hooks.clear else s.hooks
    namespaces := s.namespaces.map Namespace.clear
    console := { s.console with wire := (Wire.close s.console.wire).2 } }) := by
  unfold close
  rw [if_neg (by rw [h.closed]; decide), h.heartbeat]
  rfl

theorem tornDown_close : TornDown k (close s).2 := by
  rw [close_unclosed h]
  refine ⟨?_, ?_, closes_closed rfl⟩
  · rw [← h.console.closings]
    exact Wire.closings_close _
  · intro ns hns
    obtain ⟨old, -, rfl⟩ := List.mem_map.mp hns
    rfl

theorem closes_unclosed (n : Nat) : closes (n + 1) s =
    ((s.console.wire.link.close s.console.wire.state).1 :: List.replicate n (.ok ()), (close s).2) := by
  rw [closes, (tornDown_close h).closes n, close_unclosed h]

end

/-! ## From the start to the end -/

theorem unclosed_new {config : Config} (files : FileTree) (registry : Registry) (hooks : Hooks) (wire : Wire σ)
    (hinterval : config.session.heartbeatInterval = 0) :
    (new (.new config files registry wire) hooks).Unclosed wire.closings fun h ready => h = hooks ∧ ready = false :=
  ⟨rfl, rfl, ⟨rfl, hinterval⟩, rfl, rfl⟩

theorem comeUp_unclosed {k : Nat} {hooks : Hooks} {s : Session σ}
    (h : s.Unclosed k fun h ready => h = hooks ∧ ready = false) :
    ((comeUp s).1.isOk = true → (comeUp s).2.Up k) ∧
      ((comeUp s).1.isOk = false → (comeUp s).2.Unclosed k fun h ready => h = hooks ∧ ready = false) := by
  have hload := preserves_bind (follows_unclosed.onConsole (Console.steady_untorn k).bootstrap) (fun _ => unclosed_load) s h
  -- only the last step sets `ready`, and it cannot fail
  have hcome : comeUp s = ((onConsole Console.bootstrap >>= fun _ => load) >>= fun _ => modify fun s => { s with
      heartbeat := if s.console.config.session.heartbeatInterval > 0 then some .running else none
      ready := true }) s := by
    rw [bind_assoc]
    rfl
  rw [hcome]
  cases hloaded : (onConsole Console.bootstrap >>= fun _ => load) s with
  | mk outcome s' =>
    rw [hloaded] at hload
    cases outcome with
    | error e => rw [bind_error hloaded]; exact ⟨nofun, fun _ => hload⟩
    | crash c => rw [bind_crash hloaded]; exact ⟨nofun, fun _ => hload⟩
    | ok n =>
      rw [bind_ok hloaded]
      refine ⟨fun _ => ⟨hload.closed, ?_, hload.console, rfl⟩, nofun⟩
      exact if_neg (by rw [hload.console.interval]; exact Nat.lt_irrefl 0)

theorem start_cases {config : Config} {files : FileTree} {hooks : Hooks} {wire : Wire σ} {outcome : Outcome Unit}
    {s : Session σ} (hinterval : config.session.heartbeatInterval = 0)
    (hstart : start config files hooks wire = .ok (outcome, s)) :
    (outcome.isOk = true ∧ s.Up wire.closings) ∨
      (outcome.isOk = false ∧ ∃ failed : Session σ,
        failed.Unclosed wire.closings (fun h ready => h = hooks ∧ ready = false) ∧ s = (close failed).2) := by
  cases hvalid : config.validate with
  | error e => unfold start at hstart; rw [hvalid] at hstart; cases hstart
  | ok u =>
    cases hdiscover : Registry.discover config.scripts.libraryDir config.scripts.toolsDir config.scripts.caching files with
    | error e => unfold start at hstart; rw [hvalid, hdiscover] at hstart; cases hstart
    | ok registry =>
      rw [start_eq hvalid hdiscover] at hstart
      obtain ⟨hup, hfailed⟩ := comeUp_unclosed (unclosed_new files registry hooks wire hinterval)
      cases hcome : comeUp (new (.new config files registry wire) hooks) with
      | mk ending s' =>
        rw [hcome] at hstart hup hfailed
        cases ending with
        | ok u => cases hstart; exact .inl ⟨rfl, hup rfl⟩
        | error e => cases hstart; exact .inr ⟨rfl, s', hfailed rfl, rfl⟩
        | crash c => cases hstart; exact .inr ⟨rfl, s', hfailed rfl, rfl⟩

/-- **The link is closed exactly once.** Say that a session has no heartbeat. If it fails to come up
it is torn down already, with its hooks as they were given. If it comes up, then whatever it is asked
for, closing it any number of times sends one thing, closes the link once and empties the table of
hooks; only the first time can fail. -/
theorem start_tornDown {config : Config} {files : FileTree} {hooks : Hooks} {wire : Wire σ} {outcome : Outcome Unit}
    {s : Session σ} (hinterval : config.session.heartbeatInterval = 0)
    (hstart : start config files hooks wire = .ok (outcome, s)) :
    (outcome.isOk = false → TornDown wire.closings s ∧ s.hooks = hooks) ∧
    (outcome.isOk = true → ∀ requests : List Request, (∀ r ∈ requests, r ≠ .close) → ∀ n,
      let used := s.after requests
      let ended := (closes (n + 1) used).2
      TornDown wire.closings ended ∧ ended.hooks = { used.hooks with table := [] } ∧
        ended.console.wire.exchanges = used.console.wire.exchanges ++ [⟨.close, none⟩] ∧
        (closes (n + 1) used).1 =
          (used.console.wire.link.close used.console.wire.state).1 :: List.replicate n (.ok ())) := by
  rcases start_cases hinterval hstart with ⟨hok, hup⟩ | ⟨hfail, failed, hunclosed, rfl⟩
  · refine ⟨fun h => absurd (hok.symm.trans h) (by decide), ?_⟩
    intro _ requests hrequests n used ended
    have hused : used.Up wire.closings := up_after hup requests hrequests
    have hended : ended = (close used).2 := by
      show (closes (n + 1) used).2 = _
      rw [closes_unclosed hused]
    refine ⟨hended ▸ tornDown_close hused, ?_, ?_, by rw [closes_unclosed hused]⟩
    · rw [hended, close_unclosed hused]
      exact if_pos hused.rest
    · rw [hended, close_unclosed hused]
      exact Wire.close_exchanges _
  · refine ⟨fun _ => ⟨tornDown_close hunclosed, ?_⟩, fun h => absurd (hfail.symm.trans h) (by decide)⟩
    rw [close_unclosed hunclosed]
    exact (if_neg (by rw [hunclosed.rest.2]; decide)).trans hunclosed.rest.1

def watched : Hooks := Hooks.empty.register "sleep" .before (.mk "watch" fun _ => ⟨[], .fine⟩)

def frail (libraries : List String) : Except ControlError (Outcome Unit × Session (List Rule)) :=
  start { Config.default with scripts := ⟨"lib", "tools", true, libraries⟩ } .empty watched
    (.connect (Scripted.link false) [⟨.equals "die", none, .crash "dead"⟩, ⟨.equals "<close>", none, .fail "gone"⟩])

theorem start_tornDown_frail :
    (∃ s, frail [] = .ok (.ok (), s) ∧ (s.after [.executeText "die"]).console.wire.poisoned = true ∧
      (closes 3 (s.after [.executeText "die"])).1 = [.error (.transport "gone"), .ok (), .ok ()] ∧
      TornDown 0 (closes 3 (s.after [.executeText "die"])).2) ∧
    ∃ s, frail ["none"] = .ok (.error (.missingLibrary "none"), s) ∧ TornDown 0 s ∧ s.hooks = watched := by
  constructor
  · -- states hold functions, so what is evaluated are facts about them
    have hfacts : (frail []).toOption.map (fun (outcome, s) =>
        (outcome.isOk, (s.after [.executeText "die"]).console.wire.poisoned,
          ((s.after [.executeText "die"]).console.wire.link.close
            (s.after [.executeText "die"]).console.wire.state).1.error?)) =
        some (true, true, some (.transport "gone")) := by decide +kernel
    cases hstart : frail [] with
    | error e => rw [hstart] at hfacts; cases hfacts
    | ok r =>
      obtain ⟨outcome, s⟩ := r
      rw [hstart] at hfacts
      obtain ⟨hok, hrest⟩ := Prod.mk.inj (Option.some.inj hfacts)
      obtain ⟨hpoisoned, hgone⟩ := Prod.mk.inj hrest
      obtain rfl := eq_ok_of_isOk hok
      obtain ⟨hdown, -, -, houtcomes⟩ := (start_tornDown rfl hstart).2 rfl [.executeText "die"] (by simp) 2
      refine ⟨s, rfl, hpoisoned, ?_, hdown⟩
      rw [houtcomes, Outcome.error?_eq_some.mp hgone]
      rfl
  · have hfacts : (frail ["none"]).toOption.map (fun (outcome, _) => outcome.error?) =
        some (some (.missingLibrary "none")) := by decide +kernel
    cases hstart : frail ["none"] with
    | error e => rw [hstart] at hfacts; cases hfacts
    | ok r =>
      obtain ⟨outcome, s⟩ := r
      rw [hstart] at hfacts
      obtain rfl := Outcome.error?_eq_some.mp (Option.some.inj hfacts)
      obtain ⟨hdown, hhooks⟩ := (start_tornDown rfl hstart).1 rfl
      exact ⟨s, rfl, hdown, hhooks⟩

end Session

end RemoteConsole
