import RemoteConsole.Proofs.Session.Frame
import RemoteConsole.Proofs.Script.Registry
import RemoteConsole.Session.Console

/-!
# Installing

Installing uploads the named fragments that are out of date, each once, and
stops at the first that is not answered well. Only when all were answered are
their fingerprints recorded, with one command, and only then does the mirror
change.
-/

namespace RemoteConsole

open Script (Fragment)

variable {σ : Type}

/-- A fragment that was sent, and the text of its reply if there was one. -/
structure Attempt where
  fragment : Fragment
  reply : Option String

namespace Attempt

def exchange (a : Attempt) : Exchange := ⟨.command ("/sc " ++ a.fragment.content), a.reply⟩

def entry (a : Attempt) : String × String := (a.fragment.name, a.fragment.hash)

def Answered (a : Attempt) : Prop := ∃ text value, a.reply = some text ∧ Reply.decode text = .ok value

end Attempt

namespace Console

theorem upload_cases (pending : List (String × String)) (name : String) (c : Console σ) :
    (∃ outcome, upload pending name c = (outcome, c) ∧ outcome.isOk = false) ∨
    (∃ f, c.registry.get? name = some f ∧ (c.registry.isOutdated f = false ∨ name ∈ Assoc.keys pending) ∧
      upload pending name c = (.ok pending, c)) ∨
    ∃ f reply wire outcome, c.registry.get? name = some f ∧ name ∉ Assoc.keys pending ∧
      wire.exchanges = c.wire.exchanges ++ [Attempt.exchange ⟨f, reply⟩] ∧
      upload pending name c = (outcome, { c with wire }) ∧
      (outcome.isOk = false ∨ outcome = .ok (pending ++ [(name, f.hash)]) ∧ Attempt.Answered ⟨f, reply⟩) := by
  unfold upload
  rw [Action.read_bind]
  cases hget : c.registry.get? name with
  | none => exact .inl ⟨_, rfl, rfl⟩
  | some f =>
    simp only
    split
    · rename_i hskip
      refine .inr (.inl ⟨f, rfl, ?_, rfl⟩)
      rw [Bool.or_eq_true, Bool.not_eq_true'] at hskip
      rcases hskip with h | h
      · exact .inl h
      · refine .inr (Classical.byContradiction fun hn => ?_)
        rw [Assoc.get?_eq_none.mpr hn] at h
        cases h
    · rename_i hneeded
      have hnew : name ∉ Assoc.keys pending := by
        intro h
        cases hp : Assoc.get? name pending with
        | none => exact Assoc.get?_eq_none.mp hp h
        | some hash => simp [hp] at hneeded
      -- the fragment is due; only a script that passes the check is sent
      cases hcheck : Script.check f.content.toList with
      | error issue => exact .inl ⟨_, rfl, rfl⟩
      | ok _ =>
        simp only
        rcases send_cases ("/sc " ++ f.content) (fun reply => do
            let _ ← decode reply.text
            return pending ++ [(name, f.hash)]) c with
          hquiet | ⟨wire, reply, hlog, ⟨-, outcome, hsend, hfail⟩ | ⟨r, hreply, hsend⟩⟩
        · exact .inl hquiet
        · exact .inr (.inr ⟨f, reply, wire, outcome, rfl, hnew, hlog, hsend, .inl hfail⟩)
        refine .inr (.inr ⟨f, reply, wire, ?_⟩)
        rw [hsend]
        cases hdecode : Reply.decode r.text with
        | error e =>
          exact ⟨_, rfl, hnew, hlog, Action.bind_error (decode_error hdecode _), .inl rfl⟩
        | ok value =>
          exact ⟨_, rfl, hnew, hlog, Action.bind_ok (decode_ok hdecode _),
            .inr ⟨rfl, r.text, value, hreply, hdecode⟩⟩

/-! ## Uploads -/

/-- From one state to another only attempts at fragments of the registry were sent, each once. -/
structure Uploaded (c : Console σ) (attempts : List Attempt) (c' : Console σ) : Prop where
  rest : c' = { c with wire := c'.wire }
  log : c'.wire.exchanges = c.wire.exchanges ++ attempts.map Attempt.exchange
  distinct : (attempts.map fun a => a.fragment.name).Nodup
  known : ∀ a ∈ attempts, c.registry.get? a.fragment.name = some a.fragment

theorem Uploaded.nil (c : Console σ) : Uploaded c [] c where
  rest := rfl
  log := by rw [List.map_nil, List.append_nil]
  distinct := List.nodup_nil
  known := fun _ h => by cases h

theorem Uploaded.registry {c c' : Console σ} {attempts : List Attempt} (h : Uploaded c attempts c') :
    c'.registry = c.registry := by rw [h.rest]

theorem Uploaded.snoc {c c' : Console σ} {attempts : List Attempt} (h : Uploaded c attempts c') {f : Fragment}
    {reply : Option String} {wire : Wire σ} (hf : c.registry.get? f.name = some f)
    (hnew : f.name ∉ attempts.map fun a => a.fragment.name)
    (hlog : wire.exchanges = c'.wire.exchanges ++ [Attempt.exchange ⟨f, reply⟩]) :
    Uploaded c (attempts ++ [⟨f, reply⟩]) { c' with wire } where
  rest := by rw [h.rest]
  log := by
    show wire.exchanges = _
    rw [hlog, h.log, List.map_append, List.append_assoc]
    rfl
  distinct := by
    rw [List.map_append]
    refine List.nodup_append.mpr ⟨h.distinct, by simp, fun name hname other hother e => hnew ?_⟩
    rw [List.map_singleton, List.mem_singleton] at hother
    exact hother ▸ e ▸ hname
  known := by
    intro a ha
    rcases List.mem_append.mp ha with ha | ha
    · exact h.known a ha
    · rw [List.mem_singleton] at ha
      subst ha
      exact hf

theorem keys_entries (attempts : List Attempt) :
    Assoc.keys (attempts.map Attempt.entry) = attempts.map fun a => a.fragment.name := by
  rw [Assoc.keys, List.map_map]
  rfl

def Settled (r : Registry) (attempts : List Attempt) (name : String) : Prop :=
  ∃ f, r.get? name = some f ∧ (r.isOutdated f = false ∨ name ∈ attempts.map fun a => a.fragment.name)

theorem Settled.append {r : Registry} {attempts : List Attempt} {name : String} (h : Settled r attempts name)
    (more : List Attempt) : Settled r (attempts ++ more) name := by
  obtain ⟨f, hf, h⟩ := h
  refine ⟨f, hf, h.imp id fun h => ?_⟩
  rw [List.map_append]
  exact List.mem_append_left _ h

theorem foldlM_upload {c : Console σ} (hn : c.registry.Named) : ∀ (names : List String) {done : List Attempt}
    {c' : Console σ}, Uploaded c done c' → (∀ a ∈ done, a.Answered) → ∃ more middle, Uploaded c (done ++ more) middle ∧
      ((∃ outcome, names.foldlM upload (done.map Attempt.entry) c' = (outcome, middle) ∧ outcome.isOk = false) ∨
        (∀ a ∈ done ++ more, a.Answered) ∧ (∀ name ∈ names, Settled c.registry (done ++ more) name) ∧
          names.foldlM upload (done.map Attempt.entry) c' = (.ok ((done ++ more).map Attempt.entry), middle))
  | [], done, c', h, hall => by
    refine ⟨[], c', by rwa [List.append_nil], .inr ?_⟩
    rw [List.append_nil]
    exact ⟨hall, by simp, rfl⟩
  | name :: names, done, c', h, hall => by
    rw [List.foldlM_cons]
    rcases upload_cases (done.map Attempt.entry) name c' with
      ⟨outcome, hup, hfail⟩ | ⟨f, hf, hskip, hup⟩ | ⟨f, reply, wire, outcome, hf, hnew, hlog, hup, hend⟩
    -- Nothing was sent for this name: it is unknown, or its script is not well formed.
    · obtain ⟨failure, hbind, hfailure⟩ := Action.bind_failed hup hfail fun pending => names.foldlM upload pending
      exact ⟨[], c', by rwa [List.append_nil], .inl ⟨failure, hbind, hfailure⟩⟩
    -- The name is settled already, and stays so while more is uploaded.
    · rw [h.registry] at hf hskip
      rw [keys_entries] at hskip
      rw [Action.bind_ok hup]
      obtain ⟨more, middle, hmore, hfail | ⟨hanswered, hsettled, heq⟩⟩ := foldlM_upload hn names h hall
      · exact ⟨more, middle, hmore, .inl hfail⟩
      refine ⟨more, middle, hmore, .inr ⟨hanswered, fun other ho => ?_, heq⟩⟩
      rcases List.mem_cons.mp ho with rfl | ho
      · exact Settled.append ⟨f, hf, hskip⟩ more
      · exact hsettled other ho
    -- The fragment was sent, which is an attempt even if it failed.
    · rw [h.registry] at hf
      have hname : f.name = name := hn _ _ hf
      subst hname
      rw [keys_entries] at hnew
      have hsent : Uploaded c (done ++ [⟨f, reply⟩]) { c' with wire } := h.snoc hf hnew hlog
      rcases hend with hfail | ⟨rfl, hanswered⟩
      · obtain ⟨failure, hbind, hfailure⟩ := Action.bind_failed hup hfail fun pending => names.foldlM upload pending
        exact ⟨_, _, hsent, .inl ⟨failure, hbind, hfailure⟩⟩
      have hall' : ∀ a ∈ done ++ [⟨f, reply⟩], a.Answered := by
        intro a ha
        rcases List.mem_append.mp ha with ha | ha
        · exact hall a ha
        · rw [List.mem_singleton] at ha
          subst ha
          exact hanswered
      have hentries : done.map Attempt.entry ++ [(f.name, f.hash)] = (done ++ [Attempt.mk f reply]).map Attempt.entry := by
        rw [List.map_append]
        rfl
      rw [Action.bind_ok hup, hentries]
      obtain ⟨more, middle, hmore, hrest⟩ := foldlM_upload hn names hsent hall'
      rw [List.append_assoc] at hmore hrest
      rcases hrest with hfail | ⟨hanswered, hsettled, heq⟩
      · exact ⟨_, middle, hmore, .inl hfail⟩
      refine ⟨_, middle, hmore, .inr ⟨hanswered, fun other ho => ?_, heq⟩⟩
      rcases List.mem_cons.mp ho with rfl | ho
      · exact ⟨f, hf, .inr (by simp)⟩
      · exact hsettled other ho

/-! ## Recording -/

theorem record_cases (entries : List (String × String)) (c : Console σ) :
    (entries = [] ∧ record entries c = (.ok (), c)) ∨
    (∃ outcome, record entries c = (outcome, c) ∧ outcome.isOk = false) ∨
    ∃ wire reply, wire.exchanges = c.wire.exchanges ++ [⟨.command (recordCommand entries), reply⟩] ∧
      ((∃ outcome, record entries c = (outcome, { c with wire }) ∧ outcome.isOk = false) ∨
        record entries c = (.ok (), { c with wire, registry := c.registry.record entries })) := by
  unfold record
  cases entries with
  | nil => exact .inl ⟨rfl, rfl⟩
  | cons e entries =>
    refine .inr ?_
    rw [List.isEmpty_cons, if_neg (by decide)]
    rcases send_cases (recordCommand (e :: entries)) (fun _ => updateRegistry (·.record (e :: entries))) c with
      hquiet | ⟨wire, reply, hlog, ⟨-, hfail⟩ | ⟨r, _, hsend⟩⟩
    · exact .inl hquiet
    · exact .inr ⟨wire, reply, hlog, .inl hfail⟩
    · exact .inr ⟨wire, reply, hlog, .inr hsend⟩

/-- At most one update, and every fingerprint in it belongs to an attempt that was answered. -/
def IsUpdate (attempts : List Attempt) (updates : List Exchange) : Prop :=
  updates = [] ∨ ∃ entries reply, updates = [⟨.command (recordCommand entries), reply⟩] ∧
    ∀ e ∈ entries, ∃ a ∈ attempts, a.Answered ∧ a.entry = e

/-- What was sent: attempts at fragments of the registry, each once, and then at most one update. -/
structure Traffic (c : Console σ) (attempts : List Attempt) (updates : List Exchange) (c' : Console σ) : Prop where
  log : c'.wire.exchanges = c.wire.exchanges ++ (attempts.map Attempt.exchange ++ updates)
  distinct : (attempts.map fun a => a.fragment.name).Nodup
  known : ∀ a ∈ attempts, c.registry.get? a.fragment.name = some a.fragment
  update : IsUpdate attempts updates

theorem Uploaded.traffic {c c' c'' : Console σ} {attempts : List Attempt} {updates : List Exchange}
    (h : Uploaded c attempts c') (hlog : c''.wire.exchanges = c'.wire.exchanges ++ updates)
    (hu : IsUpdate attempts updates) : Traffic c attempts updates c'' where
  log := by rw [hlog, h.log, List.append_assoc]
  distinct := h.distinct
  known := h.known
  update := hu

theorem Uploaded.quiet {c c' : Console σ} {attempts : List Attempt} (h : Uploaded c attempts c') :
    Traffic c attempts [] c' := h.traffic (by rw [List.append_nil]) (.inl rfl)

/-- The registry stays as it is unless installing succeeds; then the entries of its attempts are
recorded, and every name is settled by them. -/
theorem install_cases {c : Console σ} (hn : c.registry.Named) (names : List String) : ∃ attempts updates outcome c',
    install names c = (outcome, c') ∧ Traffic c attempts updates c' ∧
      ((outcome.isOk = false ∧ c'.registry = c.registry) ∨
        (outcome = .ok (attempts.map fun a => a.fragment.name) ∧ (∀ a ∈ attempts, a.Answered) ∧
          (∀ name ∈ names, Settled c.registry attempts name) ∧
          c'.registry = c.registry.record (attempts.map Attempt.entry))) := by
  obtain ⟨attempts, middle, hup, hend⟩ := foldlM_upload hn names (Uploaded.nil c) (by simp)
  rw [List.nil_append] at hup hend
  rw [List.map_nil] at hend
  unfold install
  rcases hend with ⟨outcome, hfold, hfail⟩ | ⟨hanswered, hsettled, hfold⟩
  · obtain ⟨failure, hbind, hfailure⟩ := Action.bind_failed hfold hfail fun pending => do
      record pending
      return pending.map Prod.fst
    exact ⟨attempts, [], failure, middle, hbind, hup.quiet, .inl ⟨hfailure, hup.registry⟩⟩
  have hentry : ∀ e ∈ attempts.map Attempt.entry, ∃ a ∈ attempts, a.Answered ∧ a.entry = e := by
    intro e he
    obtain ⟨a, ha, rfl⟩ := List.mem_map.mp he
    exact ⟨a, ha, hanswered a ha, rfl⟩
  have hnames : (attempts.map Attempt.entry).map Prod.fst = attempts.map fun a => a.fragment.name := by
    rw [List.map_map]
    rfl
  rw [Action.bind_ok hfold]
  rcases record_cases (attempts.map Attempt.entry) middle with
    ⟨hnone, hrec⟩ | ⟨outcome, hrec, hfail⟩ | ⟨wire, reply, hsent, ⟨outcome, hrec, hfail⟩ | hrec⟩
  · rw [Action.bind_ok hrec, hnames]
    exact ⟨attempts, [], _, middle, rfl, hup.quiet, .inr ⟨rfl, hanswered, hsettled, by rw [hnone, hup.registry]; rfl⟩⟩
  · obtain ⟨failure, hbind, hfailure⟩ := Action.bind_failed hrec hfail fun _ =>
      pure ((attempts.map Attempt.entry).map Prod.fst)
    exact ⟨attempts, [], failure, middle, hbind, hup.quiet, .inl ⟨hfailure, hup.registry⟩⟩
  -- An update that failed was sent all the same, but the mirror does not follow it.
  · obtain ⟨failure, hbind, hfailure⟩ := Action.bind_failed hrec hfail fun _ =>
      pure ((attempts.map Attempt.entry).map Prod.fst)
    exact ⟨attempts, _, failure, _, hbind, hup.traffic hsent (.inr ⟨_, reply, rfl, hentry⟩),
      .inl ⟨hfailure, hup.registry⟩⟩
  · rw [Action.bind_ok hrec, hnames]
    exact ⟨attempts, _, _, _, rfl, hup.traffic hsent (.inr ⟨_, reply, rfl, hentry⟩),
      .inr ⟨rfl, hanswered, hsettled, by rw [hup.registry]⟩⟩

/-! ## Installing twice -/

/-- The mirror holds the fingerprint of the fragment of a name. -/
def Current (r : Registry) (name : String) : Prop :=
  ∃ f, r.get? name = some f ∧ Assoc.get? name r.mirror = some f.hash

theorem current_record {r : Registry} (hn : r.Named) {attempts : List Attempt} {name : String}
    (hknown : ∀ a ∈ attempts, r.get? a.fragment.name = some a.fragment) (h : Settled r attempts name) :
    Current (r.record (attempts.map Attempt.entry)) name := by
  let hash := fun n => ((r.get? n).map Fragment.hash).getD ""
  have hhash : ∀ e ∈ attempts.map Attempt.entry, e.2 = hash e.1 := by
    intro e he
    obtain ⟨a, ha, rfl⟩ := List.mem_map.mp he
    simp only [hash, Attempt.entry, hknown a ha, Option.map_some, Option.getD_some]
  obtain ⟨f, hf, hsettled⟩ := h
  refine ⟨f, hf, ?_⟩
  rw [Registry.get?_record hash hhash, keys_entries]
  split
  · simp only [hash, hf, Option.map_some, Option.getD_some]
  · rename_i hnot
    rcases hsettled with hcurrent | hmem
    · rw [Registry.isOutdated_eq_false, hn _ _ hf] at hcurrent
      exact hcurrent
    · exact absurd hmem hnot

theorem install_current {c c' : Console σ} (hn : c.registry.Named) {names uploaded : List String}
    (h : install names c = (.ok uploaded, c')) : ∀ name ∈ names, Current c'.registry name := by
  intro name hname
  obtain ⟨attempts, updates, outcome, c'', hinstall, htraffic, ⟨hfail, _⟩ | ⟨_, _, hsettled, hregistry⟩⟩ :=
    install_cases hn names
  · rw [h] at hinstall
    cases hinstall
    cases hfail
  · rw [h] at hinstall
    cases hinstall
    rw [hregistry]
    exact current_record hn htraffic.known (hsettled name hname)

theorem upload_due {c : Console σ} {pending : List (String × String)} {name : String} {f : Fragment}
    (hf : c.registry.get? name = some f) (hout : c.registry.isOutdated f = true) (hnew : Assoc.get? name pending = none)
    (hcheck : Script.check f.content.toList = .ok ()) :
    upload pending name c = (do
      let reply ← send ("/sc " ++ f.content)
      let _ ← decode reply.text
      return pending ++ [(name, f.hash)]) c := by
  unfold upload
  rw [Action.read_bind, hf]
  simp only
  rw [hout, hnew, hcheck]
  rfl

theorem upload_current {c : Console σ} (hn : c.registry.Named) {name : String} (h : Current c.registry name)
    (pending : List (String × String)) : upload pending name c = (.ok pending, c) := by
  obtain ⟨f, hf, hmirror⟩ := h
  have hcurrent : c.registry.isOutdated f = false := by rw [Registry.isOutdated_eq_false, hn _ _ hf, hmirror]
  unfold upload
  rw [Action.read_bind, hf]
  simp only
  rw [hcurrent]
  rfl

theorem install_again {c : Console σ} (hn : c.registry.Named) {names : List String}
    (h : ∀ name ∈ names, Current c.registry name) : install names c = (.ok [], c) := by
  have hfold : ∀ names : List String, (∀ name ∈ names, Current c.registry name) →
      names.foldlM upload [] c = (.ok [], c) := by
    intro names
    induction names with
    | nil => exact fun _ => rfl
    | cons name names ih =>
      intro h
      rw [List.foldlM_cons, Action.bind_ok (upload_current hn (h name (by simp)) [])]
      exact ih fun other ho => h other (by simp [ho])
  unfold install
  rw [Action.bind_ok (hfold names h)]
  rfl

end Console

end RemoteConsole
