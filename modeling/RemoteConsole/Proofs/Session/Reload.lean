import RemoteConsole.Proofs.Session.Again
import RemoteConsole.Proofs.Session.Loading

/-!
# Reloading

Once the scripts are installed anew, loading sends nothing and stops only at a directory without an
implementation. So a failed reload either never touched the namespaces, or it left them with the directories
before that one.
-/

namespace RemoteConsole

variable {σ : Type}

theorem Registry.toolsBelow_installedAll (path : String) : ∀ (lists : List (List String)) (r : Registry),
    (r.installedAll lists).toolsBelow path = r.toolsBelow path
  | [], _ => rfl
  | names :: lists, r => toolsBelow_installedAll path lists (r.installed names)

/-! ## Installing anew -/

namespace Console

open Registry (current_installedAll)

theorem forM_installTools_ok : ∀ (ds : List CapabilityDirectory) {c c' : Console σ}, c.registry.Named →
    (ds.forM fun d => do let _ ← installTools d.fragmentPath) c = (.ok (), c') →
      c'.registry = c.registry.installedAll (ds.map fun d => c.registry.toolsBelow d.fragmentPath) ∧
      ∀ d ∈ ds, ∀ name ∈ c.registry.toolsBelow d.fragmentPath, (c.registry.get? name).isSome = true
  | [], c, c', _, h => by
    cases h
    exact ⟨rfl, by simp⟩
  | d :: ds, c, c', hn, h => by
    obtain ⟨_, c₁, hd, hds⟩ := Action.exists_of_bind_ok h
    obtain ⟨n, c₂, hinstall, hpure⟩ := Action.exists_of_bind_ok hd
    cases hpure
    obtain ⟨-, hregistry, hknown⟩ := installTools_ok hn hinstall
    have hn₁ : c₁.registry.Named := hregistry ▸ hn
    obtain ⟨hall, hknown'⟩ := forM_installTools_ok ds hn₁ hds
    rw [hregistry] at hall hknown'
    refine ⟨hall, fun d' hd' => ?_⟩
    rcases List.mem_cons.mp hd' with rfl | hd'
    · exact hknown
    · exact hknown' d' hd'

theorem invalidate_installed {c c' : Console σ} (h : invalidate c = (.ok (), c')) :
    c'.config = c.config ∧ c'.files = c.files ∧
      IsInstalled c' (CapabilityDirectory.discover c.config.scripts.toolsDir c.files) := by
  have hrest := invalidate_sameRest c
  rw [h] at hrest
  refine ⟨by rw [show c' = _ from hrest], by rw [show c' = _ from hrest], ?_⟩
  unfold invalidate at h
  rw [Action.get_bind] at h
  generalize CapabilityDirectory.discover c.config.scripts.toolsDir c.files = ds at h ⊢
  cases hfresh : Registry.discover c.config.scripts.libraryDir c.config.scripts.toolsDir false c.files with
  | error e =>
    rw [hfresh, Action.lift_error_bind] at h
    cases h
  | ok fresh =>
    rw [hfresh, Action.lift_ok_bind] at h
    obtain ⟨_, c₁, hupdate, hinstall⟩ := Action.exists_of_bind_ok h
    cases hupdate
    obtain ⟨_, c₂, hbootstrap, htools⟩ := Action.exists_of_bind_ok hinstall
    have hn : fresh.Named := (Registry.discover_ok hfresh).1
    obtain ⟨r, mirror, c₃, -, -, hc₃, -, hinstalled, -⟩ := bootstrap_ok hn hbootstrap
    have hn₂ : c₂.registry.Named := by
      rw [hinstalled, hc₃]
      exact hn
    obtain ⟨hregistry, hknown⟩ := forM_installTools_ok ds hn₂ htools
    rw [IsInstalled, hregistry]
    refine ⟨fun name f hf => hn₂ name f ((Registry.get?_installedAll name _ c₂.registry).symm.trans hf), ?_⟩
    intro d hd name hname
    rw [Registry.toolsBelow_installedAll] at hname
    exact current_installedAll _ hn₂ (.inr ⟨⟨_, List.mem_map_of_mem hd, hname⟩, hknown d hd name hname⟩)

end Console

/-! ## Reloading -/

namespace Session

open CapabilityDirectory (isImplemented loadingEnd)

theorem load_eq {s : Session σ} {ds : List CapabilityDirectory}
    (hds : CapabilityDirectory.discover s.console.config.scripts.toolsDir s.console.files = ds) :
    load s = ((ds.forM loadDirectory s).1.map fun _ => ds.length, (ds.forM loadDirectory s).2) := by
  unfold load
  rw [Action.read_bind, hds]
  exact Action.bind_pure_eq _ _ _

/-- A reload that cannot install the scripts leaves the namespaces alone; any other loads emptied ones. -/
theorem reload_cases {s : Session σ} {ds : List CapabilityDirectory}
    (hds : CapabilityDirectory.discover s.console.config.scripts.toolsDir s.console.files = ds) :
    (reload s).2.hooks = s.hooks ∧
    ((Console.invalidate s.console).1.isOk = false ∧ (reload s).1.isOk = false ∧
        (reload s).2.namespaces = s.namespaces ∨
      (Console.invalidate s.console).1.isOk = true ∧ (reload s).1 = loadingEnd ds ∧
        Loads (ds.takeWhile isImplemented) (s.namespaces.map Namespace.clear) (reload s).2.namespaces) := by
  unfold reload
  cases hinvalidate : Console.invalidate s.console with
  | mk outcome c =>
    have hconsole : onConsole Console.invalidate s = (outcome, { s with console := c }) := by
      rw [onConsole, Action.zoom, hinvalidate]
    cases hok : outcome.isOk with
    | false =>
      obtain ⟨failure, hbind, hfailure⟩ := Action.bind_failed hconsole hok fun _ => do
        updateNamespaces Namespace.clear
        let _ ← load
      rw [hbind]
      exact ⟨rfl, .inl ⟨rfl, hfailure, rfl⟩⟩
    | true =>
      obtain rfl := Action.eq_ok_of_isOk hok
      obtain ⟨hconfig, hfiles, hinstalled⟩ := Console.invalidate_installed hinvalidate
      rw [hds] at hinstalled
      let cleared : Session σ := { s with console := c, namespaces := s.namespaces.map Namespace.clear }
      obtain ⟨contexts, namespaces, hforM, hloads⟩ := forM_loadDirectory_installed ds (s := cleared) hinstalled
      have hupdate : updateNamespaces Namespace.clear { s with console := c } = (.ok (), cleared) := rfl
      rw [← hconfig, ← hfiles] at hds
      rw [Action.bind_ok hconsole, Action.bind_ok hupdate, Action.bind_pure_eq, load_eq (s := cleared) hds, hforM]
      refine ⟨rfl, .inr ⟨rfl, ?_, hloads⟩⟩
      cases loadingEnd ds with
      | ok u => rfl
      | error e => rfl
      | crash k => rfl

/-- **Reloading.** Hooks, agents and visibility stay in every case. A reload that succeeds finds an implementation
for every directory and binds exactly their keys, in the order of loading. One that fails leaves the namespaces as
they are, unless its error is the fatal one for the first directory without an implementation; then it has bound
the directories before that one. -/
theorem reload_listing (s : Session σ) :
    let ds := CapabilityDirectory.discover s.console.config.scripts.toolsDir s.console.files
    let after := reload s
    after.2.hooks = s.hooks ∧
    (after.1.isOk = true → (∀ d ∈ ds, d.isImplemented = true) ∧
      List.Forall₂ (Namespace.Rebound ds) s.namespaces after.2.namespaces) ∧
    (after.1.isOk = false → after.2.namespaces = s.namespaces ∨
      ∃ known d later, ds = known ++ d :: later ∧ (∀ e ∈ known, e.isImplemented = true) ∧ d.isImplemented = false ∧
        after.1 = .error d.refusal ∧ d.refusal.isFatal = true ∧
        List.Forall₂ (Namespace.Rebound known) s.namespaces after.2.namespaces) := by
  intro ds after
  have hds : CapabilityDirectory.discover s.console.config.scripts.toolsDir s.console.files = ds := rfl
  obtain ⟨hhooks, ⟨-, hfail, hsame⟩ | ⟨-, hend, hloads⟩⟩ := reload_cases hds
  · refine ⟨hhooks, fun hok => ?_, fun _ => .inl hsame⟩
    rw [show after.1.isOk = false from hfail] at hok
    cases hok
  have hrebound := rebound_of_loads s.namespaces hloads
  refine ⟨hhooks, fun hok => ?_, fun hfail => .inr ?_⟩
  · cases hfind : ds.find? (!·.isImplemented) with
    | some d =>
      rw [show after.1 = _ from hend, loadingEnd, hfind] at hok
      cases hok
    | none =>
      have hall : ∀ d ∈ ds, d.isImplemented = true := by simpa using List.find?_eq_none.mp hfind
      rw [List.takeWhile_eq_self_iff.mpr hall] at hrebound
      exact ⟨hall, hrebound⟩
  · cases hfind : ds.find? (!·.isImplemented) with
    | none =>
      rw [show after.1 = _ from hend, loadingEnd, hfind] at hfail
      cases hfail
    | some d =>
      obtain ⟨hd, known, later, hds, hknown⟩ := List.find?_eq_some_iff_append.mp hfind
      have hmissing : d.isImplemented = false := by simpa using hd
      have hall : ∀ e ∈ known, e.isImplemented = true := by simpa using hknown
      have htake : ds.takeWhile isImplemented = known := by
        rw [hds, List.takeWhile_append_of_pos hall, List.takeWhile_cons_of_neg (by simp [hmissing]), List.append_nil]
      rw [htake] at hrebound
      refine ⟨known, d, later, hds, hall, hmissing, ?_, rfl, hrebound⟩
      rw [show after.1 = _ from hend, loadingEnd, hfind]

/-- A directory without an implementation, before all others: the reload fails, and the bindings are gone. -/
theorem reload_forgets :
    let files := withCapability "tools/agent/sleep" .empty
    let s := (load (loadable files)).2
    let changed : Session (List Rule) :=
      { s with console := { s.console with files := withCapability "tools/agent/a_new" files } }
    (reload changed).1.isOk = false ∧
      changed.namespaces.map Namespace.listing =
        [[("sleep", "sleep", 0, .everyone)], [("sleep", "sleep", 1, .everyone)]] ∧
      (reload changed).2.namespaces.map Namespace.listing = [[], []] := by
  decide +kernel

end Session

end RemoteConsole
