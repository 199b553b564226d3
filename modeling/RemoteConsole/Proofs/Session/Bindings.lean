import Mathlib.Data.List.Forall2
import RemoteConsole.Proofs.Action
import RemoteConsole.Proofs.Assoc
import RemoteConsole.Session.Basic

/-!
# Bindings of capability directories

Binding a capability directory makes a binding of its name for every agent. A namespace that is filled so has a
key where the first directory with it stands, and under it what the last one makes.
-/

namespace RemoteConsole

variable {σ : Type}

/-- The key of the bindings that are made from the directory. -/
def CapabilityDirectory.key (d : CapabilityDirectory) : String :=
  match d.visibility with
  | .everyone => d.name
  | .admin => adminKey d.name

structure Binding.MadeFrom (d : CapabilityDirectory) (number : Nat) (b : Binding ToolInstance) : Prop where
  name : b.name = d.name
  agent : b.agent = number
  visibility : b.visibility = d.visibility
  tool : Tool.ofIdentifier? d.identifier = some b.instance'.tool
  capability : b.instance'.context.capability = d.name
  called : b.instance'.context.agent = number

theorem Binding.MadeFrom.key {d : CapabilityDirectory} {number : Nat} {b : Binding ToolInstance}
    (h : b.MadeFrom d number) : b.key = d.key := by
  cases hd : d.visibility with
  | everyone => simp only [Binding.key, CapabilityDirectory.key, h.visibility, h.name, hd]
  | admin => simp only [Binding.key, CapabilityDirectory.key, h.visibility, h.name, hd]

namespace Namespace

/-- From one namespace to another with bindings made from directories, one after the other. -/
inductive Loads (ns : Namespace ToolInstance) : List CapabilityDirectory → Namespace ToolInstance → Prop where
  | nil : Loads ns [] ns
  | snoc {ds : List CapabilityDirectory} {d : CapabilityDirectory} {ns' : Namespace ToolInstance}
      {b : Binding ToolInstance} : Loads ns ds ns' → b.MadeFrom d ns.agent → Loads ns (ds ++ [d]) (ns'.register b)

variable {ns ns' ns'' : Namespace ToolInstance} {ds es : List CapabilityDirectory}

theorem Loads.same (h : ns.Loads ds ns') : ns'.agent = ns.agent ∧ ns'.adminVisible = ns.adminVisible := by
  induction h with
  | nil => exact ⟨rfl, rfl⟩
  | snoc _ _ ih => exact ih

theorem Loads.append (h : ns.Loads ds ns') (h' : ns'.Loads es ns'') : ns.Loads (ds ++ es) ns'' := by
  induction h' with
  | nil => rwa [List.append_nil]
  | snoc _ hmade ih =>
    rw [h.same.1] at hmade
    rw [← List.append_assoc]
    exact .snoc ih hmade

theorem Loads.keys (h : ns.Loads ds ns') (hempty : ns.bindings = []) :
    Assoc.keys ns'.bindings = (ds.map CapabilityDirectory.key).eraseDups := by
  induction h with
  | nil =>
    rw [hempty]
    rfl
  | snoc _ hmade ih =>
    rw [register, Assoc.keys_put, ih, hmade.key, List.map_append]
    refine Eq.trans ?_ (Assoc.eraseDups_snoc _ _).symm
    simp only [List.mem_eraseDups]

theorem Loads.get? {k : String} (h : ns.Loads ds ns') (hk : k ∈ ds.map CapabilityDirectory.key) :
    ∃ d b, ds.reverse.find? (·.key = k) = some d ∧ ns'.get? k = some b ∧ b.MadeFrom d ns.agent := by
  have hfound : ∃ d b, ds.reverse.find? (·.key = k) = some d ∧ Assoc.get? k ns'.bindings = some b ∧
      b.MadeFrom d ns.agent := by
    induction h with
    | nil => cases hk
    | @snoc ds d ns' b _ hmade ih =>
      rw [List.reverse_append, List.reverse_singleton, List.singleton_append]
      by_cases hd : d.key = k
      · refine ⟨d, b, List.find?_cons_of_pos (by simpa using hd), ?_, hmade⟩
        rw [register, ← hd, ← hmade.key, Assoc.get?_put_self]
      · rw [List.map_append, List.mem_append] at hk
        have hbefore : k ∈ ds.map CapabilityDirectory.key := by
          rcases hk with hk | hk
          · exact hk
          · exact absurd (List.mem_singleton.mp hk).symm hd
        obtain ⟨e, c, hfind, hget, hmade'⟩ := ih hbefore
        refine ⟨e, c, ?_, ?_, hmade'⟩
        · rwa [List.find?_cons_of_neg (by simpa using hd)]
        · rwa [register, Assoc.get?_put_ne (by rw [hmade.key]; exact Ne.symm hd)]
  obtain ⟨d, b, hfind, hget, hmade⟩ := hfound
  exact ⟨d, b, hfind, by rw [Namespace.get?, hget], hmade⟩

def listing (ns : Namespace ToolInstance) : List (String × String × Nat × Visibility) :=
  ns.bindings.map fun e => (e.1, e.2.name, e.2.agent, e.2.visibility)

/-- The namespace of the same agent, with what the directories list for it in place of what it had. -/
structure Rebound (ds : List CapabilityDirectory) (ns ns' : Namespace ToolInstance) : Prop where
  agent : ns'.agent = ns.agent
  adminVisible : ns'.adminVisible = ns.adminVisible
  keys : Assoc.keys ns'.bindings = (ds.map CapabilityDirectory.key).eraseDups
  listing : ns'.listing = Assoc.ofList (ds.map fun d => (d.key, d.name, ns.agent, d.visibility))

theorem Loads.listing (h : ns.Loads ds ns') (hempty : ns.bindings = []) :
    ns'.listing = Assoc.ofList (ds.map fun d => (d.key, d.name, ns.agent, d.visibility)) := by
  induction h with
  | nil =>
    rw [Namespace.listing, hempty]
    rfl
  | @snoc ds d ns' b _ hmade ih =>
    have hput := Assoc.map_put (fun b : Binding ToolInstance => (b.name, b.agent, b.visibility)) b.key b ns'.bindings
    rw [List.map_append, List.map_singleton, Assoc.ofList_append, ← ih, Namespace.listing, register]
    refine hput.trans ?_
    rw [hmade.key, hmade.name, hmade.agent, hmade.visibility]
    rfl

theorem Loads.rebound (h : ns.clear.Loads ds ns') : Rebound ds ns ns' where
  agent := h.same.1
  adminVisible := h.same.2
  keys := h.keys rfl
  listing := h.listing rfl

end Namespace

/-! ## All namespaces of a session -/

namespace Session

def Loads (ds : List CapabilityDirectory) (l l' : List (Namespace ToolInstance)) : Prop :=
  List.Forall₂ (fun ns ns' => ns.Loads ds ns') l l'

theorem Loads.nil : ∀ l : List (Namespace ToolInstance), Loads [] l l
  | [] => List.Forall₂.nil
  | _ :: l => .cons .nil (Loads.nil l)

theorem Loads.append {ds es : List CapabilityDirectory} : ∀ {l l' l'' : List (Namespace ToolInstance)},
    Loads ds l l' → Loads es l' l'' → Loads (ds ++ es) l l''
  | [], _, _, List.Forall₂.nil, List.Forall₂.nil => List.Forall₂.nil
  | _ :: _, _, _, List.Forall₂.cons h hl, List.Forall₂.cons h' hl' => .cons (h.append h') (Loads.append hl hl')

theorem mapM_bind_loads {d : CapabilityDirectory} {tool : Tool} (htool : Tool.ofIdentifier? d.identifier = some tool) :
    ∀ (l : List (Namespace ToolInstance)) (s : Session σ), ∃ l' contexts,
      l.mapM (bind d tool) s = (.ok l', { s with console := { s.console with contexts } }) ∧ Loads [d] l l'
  | [], s => ⟨[], s.console.contexts, rfl, List.Forall₂.nil⟩
  | ns :: l, s => by
    obtain ⟨l', contexts, hmap, hl⟩ := mapM_bind_loads htool l
      { s with console := { s.console with contexts := s.console.contexts + 1 } }
    let made : Binding ToolInstance :=
      ⟨d.name, ns.agent, d.visibility, ⟨tool, ⟨d.name, ns.agent, s.console.contexts⟩⟩⟩
    have hmade : made.MadeFrom d ns.agent := ⟨rfl, rfl, rfl, htool, rfl, rfl⟩
    refine ⟨ns.register made :: l', contexts, ?_, .cons (.snoc .nil hmade) hl⟩
    rw [List.mapM_cons]
    exact (Action.bind_ok rfl).trans (Action.bind_ok hmap)

theorem rebound_of_loads {ds : List CapabilityDirectory} : ∀ (l : List (Namespace ToolInstance))
    {l' : List (Namespace ToolInstance)}, Loads ds (l.map Namespace.clear) l' →
      List.Forall₂ (Namespace.Rebound ds) l l'
  | [], _, List.Forall₂.nil => List.Forall₂.nil
  | _ :: l, _, List.Forall₂.cons h hl => .cons h.rebound (rebound_of_loads l hl)

end Session

end RemoteConsole
