import RemoteConsole.Link.Scripted
import RemoteConsole.Proofs.Session.Install

/-!
# The history of a registry

Operations on a registry follow each other over any links. At every moment each
fingerprint in the mirror was in the table that was fetched last, or is that of
an upload that was answered well before.
-/

namespace RemoteConsole

open Script (Fragment)

variable {σ : Type}

/-- What can be asked of a registry, or that it goes on over another link. -/
inductive RegistryOp (σ : Type) where
  | insert (f : Fragment)
  | fetch
  | clear
  | install (name : String)
  | installMany (names : List String)
  | installLibrary (name : String)
  | installLibraries (names : List String)
  | installTools (path : String)
  | relink (link : Link σ) (state : σ)

def RegistryOp.run : RegistryOp σ → Action (Console σ) Unit
  | insert f => Console.updateRegistry (·.insert f)
  | fetch => Console.fetch
  | clear => Console.clear
  | install name => do
    let _ ← Console.installOne name
  | installMany names => do
    let _ ← Console.install names
  | installLibrary name => do
    let _ ← Console.installLibrary name
  | installLibraries names => do
    let _ ← Console.installLibraries names
  | installTools path => do
    let _ ← Console.installTools path
  | relink link state => Action.modify fun c => { c with wire := { c.wire with link, state, poisoned := false } }

def RegistryOp.isFetch : RegistryOp σ → Bool
  | fetch => true
  | _ => false

/-- What an operation asks the remote side; installing asks nothing. -/
def RegistryOp.questions : RegistryOp σ → List Sent
  | fetch => [.command Console.fetchCommand]
  | clear => [.command Console.clearCommand]
  | _ => []

namespace Console

def lastTable (c : Console σ) : List (String × String) :=
  ((c.wire.exchanges.getLast?.bind Exchange.reply).bind fingerprints?).getD []

def fresh (c : Console σ) (caching : Bool) : Console σ :=
  { c with registry := .empty caching, wire := { c.wire with exchanges := [] } }

end Console

/-- A console and the table that the latest successful fetch brought. -/
structure History (σ : Type) where
  console : Console σ
  fetched : List (String × String)

def History.step (h : History σ) (op : RegistryOp σ) : History σ where
  console := (op.run h.console).2
  fetched := if op.isFetch && (op.run h.console).1.isOk then (op.run h.console).2.lastTable else h.fetched

/-- The history of operations in turn, whether they succeed or not. -/
def History.after (c : Console σ) (caching : Bool) (ops : List (RegistryOp σ)) : History σ :=
  ops.foldl History.step ⟨c.fresh caching, []⟩

/-- A content with the hash of an entry was sent and its reply reports no failure. -/
def HasUpload (log : List Exchange) (e : String × String) : Prop :=
  ∃ content text value, ⟨.command ("/sc " ++ content), some text⟩ ∈ log ∧ Script.fingerprint content = e.2 ∧
    Reply.decode text = .ok value

/-! ## One operation -/

namespace RegistryOp

/-- How the registry comes out of an operation that succeeds. -/
inductive Change (op : RegistryOp σ) (attempts : List Attempt) (c c' : Console σ) : Prop where
  | inserted (f : Fragment) : op.isFetch = false → c'.registry = c.registry.insert f → Change op attempts c c'
  | fetched : op.isFetch = true → c'.registry = { c.registry with mirror := c'.lastTable } → Change op attempts c c'
  | cleared : op.isFetch = false → c'.registry = { c.registry with mirror := [] } → Change op attempts c c'
  | recorded : op.isFetch = false → (∀ a ∈ attempts, a.Answered) →
      c'.registry = c.registry.record (attempts.map Attempt.entry) → Change op attempts c c'

/-- What an operation sends, and that it changes the registry only if it succeeds. -/
structure Effect (op : RegistryOp σ) (c : Console σ) (asked : List Exchange) (attempts : List Attempt)
    (updates : List Exchange) : Prop where
  log : (op.run c).2.wire.exchanges = c.wire.exchanges ++ (asked ++ (attempts.map Attempt.exchange ++ updates))
  asked : (asked.map Exchange.item).Sublist op.questions
  distinct : (attempts.map fun a => a.fragment.name).Nodup
  known : ∀ a ∈ attempts, c.registry.get? a.fragment.name = some a.fragment
  update : Console.IsUpdate attempts updates
  registry : ((op.run c).1.isOk = false ∧ (op.run c).2.registry = c.registry) ∨
    ((op.run c).1.isOk = true ∧ Change op attempts c (op.run c).2)

theorem effect_silent {op : RegistryOp σ} {c : Console σ} (hlog : (op.run c).2.wire.exchanges = c.wire.exchanges)
    (hr : ((op.run c).1.isOk = false ∧ (op.run c).2.registry = c.registry) ∨
      ((op.run c).1.isOk = true ∧ Change op [] c (op.run c).2)) : Effect op c [] [] [] where
  log := by simp [hlog]
  asked := List.nil_sublist _
  distinct := List.nodup_nil
  known := by simp
  update := .inl rfl
  registry := hr

theorem effect_asked {op : RegistryOp σ} {c : Console σ} {x : Exchange}
    (hx : op.questions = [x.item])
    (hlog : (op.run c).2.wire.exchanges = c.wire.exchanges ++ [x])
    (hr : ((op.run c).1.isOk = false ∧ (op.run c).2.registry = c.registry) ∨
      ((op.run c).1.isOk = true ∧ Change op [] c (op.run c).2)) : Effect op c [x] [] [] where
  log := by simp [hlog]
  asked := by rw [hx]; exact .refl _
  distinct := List.nodup_nil
  known := by simp
  update := .inl rfl
  registry := hr

theorem effect_install {op : RegistryOp σ} (hop : op.isFetch = false) {c : Console σ} (hn : c.registry.Named)
    {names : List String}
    (hstate : (op.run c).2 = (Console.install names c).2) (hok : (op.run c).1.isOk = (Console.install names c).1.isOk) :
    ∃ attempts updates, Effect op c [] attempts updates := by
  obtain ⟨attempts, updates, outcome, c', hinstall, htraffic, hend⟩ := Console.install_cases hn names
  rw [hinstall] at hstate hok
  refine ⟨attempts, updates, ?_, List.nil_sublist _, htraffic.distinct, htraffic.known, htraffic.update, ?_⟩
  · rw [hstate, List.nil_append]
    exact htraffic.log
  · rw [hstate, hok]
    rcases hend with ⟨hfail, hregistry⟩ | ⟨rfl, hanswered, _, hregistry⟩
    · exact .inl ⟨hfail, hregistry⟩
    · exact .inr ⟨rfl, .recorded hop hanswered hregistry⟩

theorem lastTable_of_log {c : Console σ} {log : List Exchange} {item : Sent} {text : String}
    {table : List (String × String)} (hlog : c.wire.exchanges = log ++ [⟨item, some text⟩])
    (ht : Console.fingerprints? text = some table) : c.lastTable = table := by
  rw [Console.lastTable, hlog, List.getLast?_concat]
  show ((some text).bind Console.fingerprints?).getD [] = table
  rw [Option.bind_some, ht, Option.getD_some]

theorem run_fetch (c : Console σ) :
    run .fetch c = (Console.send Console.fetchCommand >>= fun reply =>
      match Console.fingerprints? reply.text with
      | some mirror => Console.updateRegistry fun r => { r with mirror }
      | none => Action.fail (.transport "malformed fingerprint table")) c := rfl

theorem effect_fetch (c : Console σ) : ∃ asked, Effect .fetch c asked [] [] := by
  have hrun := run_fetch c
  rcases Console.send_cases Console.fetchCommand _ c with
    ⟨outcome, h, hfail⟩ | ⟨wire, reply, hlog, ⟨-, outcome, h, hfail⟩ | ⟨r, hreply, h⟩⟩
  · exact ⟨[], effect_silent (by rw [hrun, h]) (.inl (by rw [hrun, h]; exact ⟨hfail, rfl⟩))⟩
  · exact ⟨_, effect_asked rfl (by rw [hrun, h]; exact hlog) (.inl (by rw [hrun, h]; exact ⟨hfail, rfl⟩))⟩
  rw [h] at hrun
  cases htable : Console.fingerprints? r.text with
  | none =>
    rw [htable] at hrun
    exact ⟨_, effect_asked rfl (by rw [hrun]; exact hlog) (.inl (by rw [hrun]; exact ⟨rfl, rfl⟩))⟩
  | some table =>
    rw [htable] at hrun
    refine ⟨_, effect_asked rfl (by rw [hrun]; exact hlog) (.inr ⟨by rw [hrun]; rfl, .fetched rfl ?_⟩)⟩
    rw [hreply] at hlog
    rw [hrun]
    show _ = { c.registry with mirror := Console.lastTable { c with wire, registry := { c.registry with mirror := table } } }
    rw [lastTable_of_log hlog htable]
    rfl

theorem effect_clear (c : Console σ) : ∃ asked, Effect .clear c asked [] [] := by
  have hrun : run .clear c = (Console.send Console.clearCommand >>= fun _ =>
      Console.updateRegistry fun r => { r with mirror := [] }) c := rfl
  rcases Console.send_cases Console.clearCommand _ c with
    ⟨outcome, h, hfail⟩ | ⟨wire, reply, hlog, ⟨-, outcome, h, hfail⟩ | ⟨r, _, h⟩⟩
  · exact ⟨[], effect_silent (by rw [hrun, h]) (.inl (by rw [hrun, h]; exact ⟨hfail, rfl⟩))⟩
  · exact ⟨_, effect_asked rfl (by rw [hrun, h]; exact hlog) (.inl (by rw [hrun, h]; exact ⟨hfail, rfl⟩))⟩
  · rw [h] at hrun
    exact ⟨_, effect_asked rfl (by rw [hrun]; exact hlog)
      (.inr ⟨by rw [hrun]; rfl, .cleared rfl (by rw [hrun]; rfl)⟩)⟩

theorem installLibraries_cases (names : List String) (c : Console σ) :
    (∃ outcome, Console.installLibraries names c = (outcome, c) ∧ outcome.isOk = false) ∨
      Console.installLibraries names c = Console.install names c := by
  unfold Console.installLibraries
  rw [Action.read_bind]
  generalize names.find? _ = missing
  cases missing with
  | some name => exact .inl ⟨_, rfl, rfl⟩
  | none => exact .inr rfl

theorem effect (op : RegistryOp σ) {c : Console σ} (hn : c.registry.Named) :
    ∃ asked attempts updates, Effect op c asked attempts updates := by
  -- libraries are looked up first, so they fail before anything is sent or install as any names do
  have hlibraries (op : RegistryOp σ) (hop : op.isFetch = false) (names : List String)
      (hstate : (op.run c).2 = (Console.installLibraries names c).2)
      (hok : (op.run c).1.isOk = (Console.installLibraries names c).1.isOk) :
      ∃ asked attempts updates, Effect op c asked attempts updates := by
    rcases installLibraries_cases names c with ⟨outcome, h, hfail⟩ | h
    · rw [h] at hstate hok
      exact ⟨[], [], [], effect_silent (by rw [hstate]) (.inl ⟨hok.trans hfail, by rw [hstate]⟩)⟩
    · rw [h] at hstate hok
      exact ⟨[], effect_install hop hn hstate hok⟩
  cases op with
  | insert f => exact ⟨[], [], [], effect_silent rfl (.inr ⟨rfl, .inserted f rfl rfl⟩)⟩
  | relink link state => exact ⟨[], [], [], effect_silent rfl (.inr ⟨rfl, .recorded rfl (by simp) rfl⟩)⟩
  | fetch =>
    obtain ⟨asked, h⟩ := effect_fetch c
    exact ⟨asked, [], [], h⟩
  | clear =>
    obtain ⟨asked, h⟩ := effect_clear c
    exact ⟨asked, [], [], h⟩
  | installMany names =>
    exact ⟨[], effect_install rfl hn (Action.bind_pure_snd _ _ c) (Action.bind_pure_isOk _ _ c)⟩
  | install name =>
    refine ⟨[], @effect_install _ _ rfl _ hn [name] ?_ ?_⟩
    · exact (Action.bind_pure_snd (Console.installOne name) _ c).trans (Action.bind_pure_snd _ _ c)
    · exact (Action.bind_pure_isOk (Console.installOne name) _ c).trans (Action.bind_pure_isOk _ _ c)
  | installTools path =>
    refine ⟨[], @effect_install _ _ rfl _ hn (c.registry.toolsBelow path) ?_ ?_⟩
    · exact (Action.bind_pure_snd (Console.installTools path) _ c).trans (Action.bind_pure_snd _ _ c)
    · exact (Action.bind_pure_isOk (Console.installTools path) _ c).trans (Action.bind_pure_isOk _ _ c)
  | installLibraries names =>
    exact hlibraries _ rfl names (Action.bind_pure_snd _ _ c) (Action.bind_pure_isOk _ _ c)
  | installLibrary name =>
    refine hlibraries _ rfl [name] ?_ ?_
    · exact (Action.bind_pure_snd (Console.installLibrary name) _ c).trans (Action.bind_pure_snd _ _ c)
    · exact (Action.bind_pure_isOk (Console.installLibrary name) _ c).trans (Action.bind_pure_isOk _ _ c)

end RegistryOp

/-! ## All operations -/

theorem HasUpload.mono {log log' : List Exchange} {e : String × String} (h : HasUpload log e)
    (hsub : ∀ x ∈ log, x ∈ log') : HasUpload log' e := by
  obtain ⟨content, text, value, hx, hhash, hdecode⟩ := h
  exact ⟨content, text, value, hsub _ hx, hhash, hdecode⟩

theorem Attempt.Answered.hasUpload {a : Attempt} (h : a.Answered) {log : List Exchange} (ha : a.exchange ∈ log) :
    HasUpload log a.entry := by
  obtain ⟨text, value, hreply, hdecode⟩ := h
  rw [exchange, hreply] at ha
  exact ⟨a.fragment.content, text, value, ha, rfl, hdecode⟩

namespace History

/-- Fragments stand under their names, and the mirror holds what was fetched last or uploaded. -/
structure Sound (h : History σ) : Prop where
  named : h.console.registry.Named
  sourced : ∀ e ∈ h.console.registry.mirror, e ∈ h.fetched ∨ HasUpload h.console.wire.exchanges e

theorem step_fetched {h : History σ} {op : RegistryOp σ}
    (hop : op.isFetch = false ∨ (op.run h.console).1.isOk = false) : (h.step op).fetched = h.fetched := by
  unfold step
  rcases hop with hop | hop
  · rw [hop, Bool.false_and, if_neg (by decide)]
  · rw [hop, Bool.and_false, if_neg (by decide)]

theorem step_sound {h : History σ} (hs : h.Sound) (op : RegistryOp σ) : (h.step op).Sound := by
  obtain ⟨asked, attempts, updates, he⟩ := op.effect hs.named
  -- A fingerprint that was in the mirror keeps its source, because the log only grows.
  have hold (hfetched : (h.step op).fetched = h.fetched) : ∀ e ∈ h.console.registry.mirror,
      e ∈ (h.step op).fetched ∨ HasUpload (op.run h.console).2.wire.exchanges e := by
    intro e hm
    rw [hfetched, he.log]
    exact (hs.sourced e hm).imp id fun hu => hu.mono fun x hx => List.mem_append_left _ hx
  have hsound {r : Registry} (hr : (op.run h.console).2.registry = r) (hn : r.Named)
      (hm : ∀ e ∈ r.mirror, e ∈ (h.step op).fetched ∨ HasUpload (op.run h.console).2.wire.exchanges e) :
      (h.step op).Sound := by
    subst hr
    exact ⟨hn, hm⟩
  rcases he.registry with ⟨hfail, hr⟩ | ⟨hok, ⟨f, hop, hr⟩ | ⟨hop, hr⟩ | ⟨hop, hr⟩ | ⟨hop, hanswered, hr⟩⟩
  · exact hsound hr hs.named (hold (step_fetched (.inr hfail)))
  · exact hsound hr (hs.named.insert f) (hold (step_fetched (.inl hop)))
  · refine hsound hr hs.named fun e hm => .inl ?_
    show e ∈ (if op.isFetch && (op.run h.console).1.isOk then _ else _)
    rw [hop, hok]
    exact hm
  · exact hsound hr hs.named fun e hm => by cases hm
  · refine hsound hr hs.named fun e hm => ?_
    rcases Registry.mem_record hm with hnew | hm
    · obtain ⟨a, ha, rfl⟩ := List.mem_map.mp hnew
      refine .inr ((hanswered a ha).hasUpload ?_)
      rw [he.log]
      exact List.mem_append_right _ (List.mem_append_right _ (List.mem_append_left _ (List.mem_map.mpr ⟨a, ha, rfl⟩)))
    · exact hold (step_fetched (.inl hop)) e hm

theorem after_sound (c : Console σ) (caching : Bool) (ops : List (RegistryOp σ)) : (after c caching ops).Sound := by
  have hfold : ∀ (ops : List (RegistryOp σ)) (h : History σ), h.Sound → (ops.foldl step h).Sound := by
    intro ops
    induction ops with
    | nil => exact fun _ hs => hs
    | cons op ops ih => exact fun h hs => ih _ (step_sound hs op)
  exact hfold ops _ ⟨Registry.named_empty caching, fun e hm => by cases hm⟩

/-- Over any links and failures: (a) the mirror has its sources, and so has every update; (b) what
does not succeed leaves the mirror alone; (c) after an install the names are up to date and nothing
is sent for them again; (d) each fragment is uploaded at most once, before at most one update. -/
theorem after_run (c : Console σ) (caching : Bool) (ops : List (RegistryOp σ)) :
    let h := after c caching ops
    (∀ e ∈ h.console.registry.mirror, e ∈ h.fetched ∨ HasUpload h.console.wire.exchanges e) ∧
    (∀ op : RegistryOp σ,
      ((op.run h.console).1.isOk = false → (op.run h.console).2.registry.mirror = h.console.registry.mirror) ∧
      ∃ (asked : List Exchange) (attempts : List Attempt) (updates : List Exchange),
        (op.run h.console).2.wire.exchanges =
          h.console.wire.exchanges ++ (asked ++ (attempts.map Attempt.exchange ++ updates)) ∧
        (asked.map Exchange.item).Sublist op.questions ∧
        (attempts.map fun a => a.fragment.name).Nodup ∧
        (∀ a ∈ attempts, h.console.registry.get? a.fragment.name = some a.fragment) ∧
        (updates = [] ∨ ∃ entries reply, updates = [⟨.command (Console.recordCommand entries), reply⟩] ∧
          ∀ e ∈ entries, ∃ a ∈ attempts, a.Answered ∧ a.entry = e)) ∧
    ∀ names uploaded c', Console.install names h.console = (.ok uploaded, c') →
      (∀ name ∈ names, ∃ f, c'.registry.get? name = some f ∧ Assoc.get? name c'.registry.mirror = some f.hash) ∧
      Console.install names c' = (.ok [], c') := by
  intro h
  have hs : h.Sound := after_sound c caching ops
  refine ⟨hs.sourced, fun op => ?_, fun names uploaded c' hok => ?_⟩
  · obtain ⟨asked, attempts, updates, he⟩ := op.effect hs.named
    refine ⟨fun hfail => ?_, asked, attempts, updates, he.log, he.asked, he.distinct, he.known, he.update⟩
    rcases he.registry with ⟨_, hr⟩ | ⟨hok, _⟩
    · rw [hr]
    · rw [hok] at hfail
      cases hfail
  · have hcurrent := Console.install_current hs.named hok
    have hnamed : c'.registry.Named := by
      have hstep : c' = ((h.step (.installMany names)).console) := by
        show c' = ((Console.install names >>= fun _ => pure ()) h.console).2
        rw [Action.bind_ok hok]
        rfl
      rw [hstep]
      exact (step_sound hs _).named
    exact ⟨hcurrent, Console.install_again hnamed hcurrent⟩

/-- A fragment that is named twice is sent once, and not at all the second time. -/
theorem after_run_twice :
    let c : Console (List Rule) := .new .default .empty (.empty true) (.connect (Scripted.link false) [])
    let h := after c true [.insert ⟨"a", .library, ""⟩, .fetch]
    (∃ c', Console.install ["a", "a"] h.console = (.ok ["a"], c') ∧ Console.install ["a", "a"] c' = (.ok [], c')) ∧
      ((RegistryOp.install "b").run h.console).2.registry.mirror = h.console.registry.mirror := by
  intro c h
  have hcheck : Script.check ("" : String).toList = .ok () := by cbv
  have hopen : Console.upload [] "a" h.console = _ := Console.upload_due rfl rfl rfl hcheck
  have hup : Console.upload [] "a" h.console =
      (.ok [("a", Script.fingerprint "")], (Console.upload [] "a" h.console).2) := by
    rw [hopen]
    rfl
  have hfold : ["a", "a"].foldlM Console.upload [] h.console =
      (.ok [("a", Script.fingerprint "")], (Console.upload [] "a" h.console).2) := by
    rw [List.foldlM_cons, Action.bind_ok hup, hopen]
    rfl
  have hfirst : ∃ c', Console.install ["a", "a"] h.console = (.ok ["a"], c') := by
    refine ⟨(Console.install ["a", "a"] h.console).2, ?_⟩
    rw [Console.install, Action.bind_ok hfold, hopen]
    rfl
  obtain ⟨c', hfirst⟩ := hfirst
  have hrun := after_run c true [.insert ⟨"a", .library, ""⟩, .fetch]
  exact ⟨⟨c', hfirst, (hrun.2.2 _ _ _ hfirst).2⟩, (hrun.2.1 (.install "b")).1 rfl⟩

end History

end RemoteConsole
