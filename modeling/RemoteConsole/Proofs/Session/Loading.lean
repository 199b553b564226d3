import RemoteConsole.Link.Scripted
import RemoteConsole.Proofs.Capability.Namespace
import RemoteConsole.Proofs.Files.Tree
import RemoteConsole.Proofs.Session.Commands
import RemoteConsole.Proofs.Session.Start

/-!
# Loaded capabilities

Loading binds every capability directory for every agent, in the order of the directories. A binding takes
the place of an earlier one with its key, which happens if and only if what an agent owns is named like what
an admin owns with the mark in front.
-/

namespace RemoteConsole

variable {σ : Type}

namespace CapabilityDirectory

theorem visibility_of_mem {owner toolsDir : String} {visibility : Visibility} {files : FileTree}
    {d : CapabilityDirectory} (h : d ∈ ownedBy owner visibility toolsDir files) : d.visibility = visibility := by
  obtain ⟨hmem, -⟩ := List.mem_filter.mp h
  obtain ⟨e, -, rfl⟩ := List.mem_map.mp hmem
  rfl

theorem nodup_ownedBy (owner toolsDir : String) (visibility : Visibility) {files : FileTree} (h : files.WellFormed) :
    ((ownedBy owner visibility toolsDir files).map CapabilityDirectory.name).Nodup := by
  refine List.Nodup.sublist (List.filter_sublist.map _) ?_
  rw [List.map_map]
  exact FileTree.nodup_directoriesAt h _

theorem nodup_keys_discover {toolsDir : String} {files : FileTree} (h : files.WellFormed) :
    ((discover toolsDir files).map key).Nodup ↔ ∀ d ∈ ownedBy "agent" .everyone toolsDir files,
      ∀ e ∈ ownedBy "admin" .admin toolsDir files, d.name ≠ adminKey e.name := by
  have hagent : (ownedBy "agent" .everyone toolsDir files).map key =
      (ownedBy "agent" .everyone toolsDir files).map CapabilityDirectory.name := by
    refine List.map_congr_left fun d hd => ?_
    rw [key, visibility_of_mem hd]
  have hadmin : (ownedBy "admin" .admin toolsDir files).map key =
      ((ownedBy "admin" .admin toolsDir files).map CapabilityDirectory.name).map adminKey := by
    rw [List.map_map]
    refine List.map_congr_left fun d hd => ?_
    rw [key, visibility_of_mem hd]
    rfl
  have hmarked : (((ownedBy "admin" .admin toolsDir files).map CapabilityDirectory.name).map adminKey).Nodup :=
    (nodup_ownedBy "admin" toolsDir .admin h).map fun _ _ => adminKey_inj
  rw [discover, List.map_append, hagent, hadmin, List.nodup_append]
  constructor
  · rintro ⟨-, -, hall⟩ d hd e he
    exact hall _ (List.mem_map_of_mem hd) _ (List.mem_map_of_mem (List.mem_map_of_mem he))
  · intro hall
    refine ⟨nodup_ownedBy "agent" toolsDir .everyone h, hmarked, fun name hname marked hm => ?_⟩
    obtain ⟨d, hd, rfl⟩ := List.mem_map.mp hname
    obtain ⟨plain, hplain, rfl⟩ := List.mem_map.mp hm
    obtain ⟨e, he, rfl⟩ := List.mem_map.mp hplain
    exact hall d hd e he

end CapabilityDirectory

namespace Namespace

/-- Every directory has its binding, in order, and a call of it goes out for the agent of the namespace. -/
structure Reaches (ds : List CapabilityDirectory) (ns : Namespace ToolInstance) : Prop where
  keys : Assoc.keys ns.bindings = ds.map CapabilityDirectory.key
  found : ∀ d ∈ ds, ∃ b, ns.get? d.key = some b ∧ b.MadeFrom d ns.agent ∧
    ∀ args, (b.instance'.context.invokeCommand args).toList = "/command local a, b = pcall".toList ++
      '(' :: ("global.actions".toList ++ '[' :: (quote d.name.toList ++ ']' :: ',' :: ' ' ::
        (literalItems (Value.ofNat ns.agent :: args) ++ ')' :: Context.reporting)))

theorem Loads.reaches_iff {ns ns' : Namespace ToolInstance} {ds : List CapabilityDirectory} (h : ns.Loads ds ns')
    (hempty : ns.bindings = []) : ns'.Reaches ds ↔ (ds.map CapabilityDirectory.key).Nodup := by
  constructor
  · intro hreaches
    exact Assoc.eraseDups_eq_self.mp ((h.keys hempty).symm.trans hreaches.keys)
  · intro hnodup
    refine ⟨?_, fun d hd => ?_⟩
    · rw [h.keys hempty, Assoc.eraseDups_eq_self.mpr hnodup]
    · obtain ⟨e, b, hfind, hget, hmade⟩ := h.get? (List.mem_map_of_mem hd)
      have he : e ∈ ds := List.mem_reverse.mp (List.mem_of_find?_eq_some hfind)
      have hkey : e.key = d.key := by simpa using List.find?_some hfind
      obtain rfl : e = d := List.inj_on_of_nodup_map hnodup he hd hkey
      rw [h.same.1]
      refine ⟨b, hget, hmade, fun args => ?_⟩
      rw [Context.toList_invokeCommand, hmade.capability, hmade.called]

end Namespace

/-! ## Loading what is installed -/

namespace CapabilityDirectory

def isImplemented (d : CapabilityDirectory) : Bool := (Tool.ofIdentifier? d.identifier).isSome

def refusal (d : CapabilityDirectory) : ControlError :=
  .loading d.path d.identifier "no implementation registered under this identifier"

def loadingEnd (ds : List CapabilityDirectory) : Outcome Unit :=
  match ds.find? (!·.isImplemented) with
  | none => .ok ()
  | some d => .error d.refusal

theorem loadingEnd_ok {ds : List CapabilityDirectory} (h : ∀ d ∈ ds, d.isImplemented = true) :
    loadingEnd ds = .ok () := by
  have hnone : ds.find? (!·.isImplemented) = none := List.find?_eq_none.mpr (by simpa using h)
  rw [loadingEnd, hnone]

end CapabilityDirectory

/-- The mirror holds the fingerprints of all scripts below the directories. -/
def Console.IsInstalled (c : Console σ) (ds : List CapabilityDirectory) : Prop :=
  c.registry.Named ∧ ∀ d ∈ ds, ∀ name ∈ c.registry.toolsBelow d.fragmentPath, Console.Current c.registry name

namespace Session

open CapabilityDirectory (isImplemented loadingEnd refusal)

theorem loadDirectory_refused {d : CapabilityDirectory} (h : d.isImplemented = false) (s : Session σ) :
    loadDirectory d s = (.error d.refusal, s) := by
  have hnone : Tool.ofIdentifier? d.identifier = none :=
    Option.isNone_iff_eq_none.mp (Option.isSome_eq_false_iff.mp h)
  unfold loadDirectory
  rw [hnone]
  rfl

theorem loadDirectory_installed {d : CapabilityDirectory} {s : Session σ} (h : d.isImplemented = true)
    (hn : s.console.registry.Named)
    (hcurrent : ∀ name ∈ s.console.registry.toolsBelow d.fragmentPath, Console.Current s.console.registry name) :
    ∃ contexts namespaces, loadDirectory d s =
      (.ok (), { s with console := { s.console with contexts }, namespaces }) ∧ Loads [d] s.namespaces namespaces := by
  obtain ⟨tool, htool⟩ := Option.isSome_iff_exists.mp h
  have hinstall : onConsole (Console.installTools d.fragmentPath) s = (.ok 0, s) := by
    rw [onConsole, Action.zoom]
    unfold Console.installTools
    rw [Action.read_bind, Action.bind_ok (Console.install_again hn hcurrent)]
    rfl
  obtain ⟨namespaces, contexts, hmap, hloads⟩ := mapM_bind_loads htool s.namespaces s
  refine ⟨contexts, namespaces, ?_, hloads⟩
  unfold loadDirectory
  rw [htool]
  simp only
  rw [Action.bind_ok hinstall, Action.read_bind, Action.bind_ok hmap]
  rfl

theorem forM_loadDirectory_installed : ∀ (ds : List CapabilityDirectory) {s : Session σ}, s.console.IsInstalled ds →
    ∃ contexts namespaces, ds.forM loadDirectory s =
      (loadingEnd ds, { s with console := { s.console with contexts }, namespaces }) ∧
        Loads (ds.takeWhile isImplemented) s.namespaces namespaces
  | [], s, _ => ⟨s.console.contexts, s.namespaces, rfl, .nil _⟩
  | d :: ds, s, ⟨hn, hcurrent⟩ => by
    have hstep : (d :: ds).forM loadDirectory s = (loadDirectory d >>= fun _ => ds.forM loadDirectory) s := rfl
    rw [hstep]
    cases hd : d.isImplemented with
    | false =>
      rw [Action.bind_error (loadDirectory_refused hd s), loadingEnd, List.find?_cons_of_pos (by simp [hd]),
        List.takeWhile_cons_of_neg (by simp [hd])]
      exact ⟨s.console.contexts, s.namespaces, rfl, .nil _⟩
    | true =>
      obtain ⟨contexts, namespaces, hload, hloads⟩ := loadDirectory_installed hd hn (hcurrent d List.mem_cons_self)
      obtain ⟨contexts', namespaces', hforM, hloads'⟩ := forM_loadDirectory_installed ds
        (s := { s with console := { s.console with contexts }, namespaces })
        ⟨hn, fun d' hd' => hcurrent d' (List.mem_cons_of_mem _ hd')⟩
      rw [Action.bind_ok hload, hforM, loadingEnd, loadingEnd, List.find?_cons_of_neg (by simp [hd]),
        List.takeWhile_cons_of_pos hd]
      exact ⟨contexts', namespaces', rfl, hloads.append hloads'⟩

/-! ## Loading -/

theorem forM_loadDirectory_loads : ∀ (ds : List CapabilityDirectory) {s s' : Session σ},
    ds.forM loadDirectory s = (.ok (), s') → Loads ds s.namespaces s'.namespaces
  | [], s, _, h => by
    cases h
    exact .nil s.namespaces
  | d :: ds, s, s', h => by
    obtain ⟨_, s₁, hd, hds⟩ := Action.exists_of_bind_ok h
    obtain ⟨_, _, _, _, _, -, -, hloads, rfl⟩ := exists_of_loadDirectory hd
    exact hloads.append (forM_loadDirectory_loads ds hds)

theorem load_loads {s s' : Session σ} {n : Nat} {ds : List CapabilityDirectory}
    (hds : CapabilityDirectory.discover s.console.config.scripts.toolsDir s.console.files = ds)
    (h : load s = (.ok n, s')) : n = ds.length ∧ Loads ds s.namespaces s'.namespaces := by
  unfold load at h
  rw [Action.read_bind, hds] at h
  obtain ⟨_, s₁, hforM, h⟩ := Action.exists_of_bind_ok h
  cases h
  exact ⟨rfl, forM_loadDirectory_loads ds hforM⟩

theorem exists_of_forall₂ {α β : Type} {R : α → β → Prop} {b : β} : ∀ {l : List α} {m : List β},
    List.Forall₂ R l m → b ∈ m → ∃ a ∈ l, R a b
  | [], _, .nil, hb => absurd hb List.not_mem_nil
  | a :: _, _ :: _, .cons h hl, hb => by
    rcases List.mem_cons.mp hb with rfl | hb
    · exact ⟨a, List.mem_cons_self, h⟩
    · obtain ⟨c, hc, hr⟩ := exists_of_forall₂ hl hb
      exact ⟨c, List.mem_cons_of_mem _ hc, hr⟩

/-- **Loading.** Loading on empty namespaces returns the number of directories. Every namespace has the keys of
the directories, each where it first stands, and under a key what the last directory with it makes. Every
directory is reached if and only if no agent owns what is named like the marked capability of an admin. -/
theorem load_reaches_iff {s s' : Session σ} {n : Nat} (htree : s.console.files.WellFormed)
    (hempty : ∀ ns ∈ s.namespaces, ns.bindings = []) (h : load s = (.ok n, s')) :
    let toolsDir := s.console.config.scripts.toolsDir
    let ds := CapabilityDirectory.discover toolsDir s.console.files
    n = ds.length ∧
    List.Forall₂ (fun ns ns' => ns'.agent = ns.agent ∧ ns'.adminVisible = ns.adminVisible ∧
      Assoc.keys ns'.bindings = (ds.map CapabilityDirectory.key).eraseDups ∧
      (∀ k ∈ ds.map CapabilityDirectory.key, ∃ d b, ds.reverse.find? (·.key = k) = some d ∧
        ns'.get? k = some b ∧ b.MadeFrom d ns.agent) ∧
      (ns'.Reaches ds ↔ ∀ d ∈ CapabilityDirectory.ownedBy "agent" .everyone toolsDir s.console.files,
        ∀ e ∈ CapabilityDirectory.ownedBy "admin" .admin toolsDir s.console.files, d.name ≠ adminKey e.name))
      s.namespaces s'.namespaces := by
  intro toolsDir ds
  obtain ⟨hn, hloads⟩ := load_loads rfl h
  refine ⟨hn, ?_⟩
  have hall : ∀ {l l' : List (Namespace ToolInstance)}, Loads ds l l' → (∀ ns ∈ l, ns.bindings = []) →
      List.Forall₂ (fun ns ns' => ns.Loads ds ns' ∧ ns.bindings = []) l l' := by
    intro l l' hl
    induction hl with
    | nil => exact fun _ => .nil
    | cons hns _ ih =>
      exact fun he => .cons ⟨hns, he _ List.mem_cons_self⟩ (ih fun ns hns => he ns (List.mem_cons_of_mem _ hns))
  refine (hall hloads hempty).imp ?_
  rintro ns ns' ⟨hns, he⟩
  refine ⟨hns.same.1, hns.same.2, hns.keys he, fun k hk => hns.get? hk, ?_⟩
  rw [hns.reaches_iff he]
  exact CapabilityDirectory.nodup_keys_discover htree

def withCapability (path : String) (files : FileTree) : FileTree :=
  (files.write (FileTree.join path "server") []).write (FileTree.join path "client") []

theorem wellFormed_withCapability {files : FileTree} (h : files.WellFormed) (path : String) :
    (withCapability path files).WellFormed := (h.write _ _).write _ _

def loadable (files : FileTree) : Session (List Rule) :=
  new (.new { Config.default with
    scripts := ⟨"lib", "tools", false, []⟩
    session := { Config.default.session with agents := 2 } } files (.empty false) (.connect (Scripted.link false) []))
    .empty

theorem load_reaches_two :
    let s := loadable (withCapability "tools/agent/sleep" (withCapability "tools/admin/clear_entities" .empty))
    s.console.files.WellFormed ∧ (load s).1 = .ok 2 ∧ ∀ ns ∈ (load s).2.namespaces,
      ns.Reaches [⟨"agent", "sleep", "tools/agent/sleep", .everyone⟩,
        ⟨"admin", "clear_entities", "tools/admin/clear_entities", .admin⟩] := by
  intro s
  have htree : s.console.files.WellFormed :=
    wellFormed_withCapability (wellFormed_withCapability FileTree.wellFormed_empty _) _
  have hdirectories : CapabilityDirectory.discover "tools" s.console.files =
      [⟨"agent", "sleep", "tools/agent/sleep", .everyone⟩,
        ⟨"admin", "clear_entities", "tools/admin/clear_entities", .admin⟩] := by decide +kernel
  obtain ⟨n, hn⟩ := Action.exists_of_isOk (x := load) (s := s) (by decide +kernel)
  obtain ⟨hcount, hreaches⟩ := load_reaches_iff htree (by decide +kernel) hn
  have htwo : n = 2 := hcount.trans (congrArg List.length hdirectories)
  refine ⟨htree, by rw [hn, htwo], fun ns' hns' => ?_⟩
  obtain ⟨ns, -, hns⟩ := exists_of_forall₂ hreaches hns'
  rw [← hdirectories]
  exact hns.2.2.2.2.mpr (by decide +kernel)

/-- An agent's capability gives way to an admin's: two are loaded, and one is there. -/
theorem load_replaced :
    let s := loadable (withCapability "tools/agent/_sleep" (withCapability "tools/admin/sleep" .empty))
    (load s).1 = .ok 2 ∧
      (load s).2.namespaces.map (fun ns => (ns.agent, ns.all.map fun b => (b.key, b.name, b.visibility))) =
        [(0, [("_sleep", "sleep", .admin)]), (1, [("_sleep", "sleep", .admin)])] := by
  intro s
  obtain ⟨n, hn⟩ := Action.exists_of_isOk (x := load) (s := s) (by decide +kernel)
  obtain ⟨hcount, -⟩ := load_loads rfl hn
  have htwo : n = 2 := hcount.trans (by decide +kernel)
  exact ⟨by rw [hn, htwo], by decide +kernel⟩

end Session

end RemoteConsole
