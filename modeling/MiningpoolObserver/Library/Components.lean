import Mathlib.Combinatorics.SimpleGraph.Connectivity.Connected
import Mathlib.Data.List.Forall2
import Mathlib.Order.CompletePartialOrder

namespace MiningpoolObserver.Library.Components

open SimpleGraph

variable {α β ε : Type}

/-- The bipartite graph of some labelled edges, each with its label, left end and right end. -/
def graph (E : Set (ε × α × β)) : SimpleGraph (α ⊕ β) :=
  SimpleGraph.fromRel (fun v w => ∃ e ∈ E, v = .inl e.2.1 ∧ w = .inr e.2.2)

variable {E E' : Set (ε × α × β)} {e : ε × α × β} {v w : α ⊕ β}

theorem adj_iff : (graph E).Adj v w ↔ ∃ e ∈ E,
    v = .inl e.2.1 ∧ w = .inr e.2.2 ∨ w = .inl e.2.1 ∧ v = .inr e.2.2 := by
  rw [graph, SimpleGraph.fromRel_adj]
  constructor
  · rintro ⟨-, ⟨e, he, h⟩ | ⟨e, he, h⟩⟩
    · exact ⟨e, he, .inl h⟩
    · exact ⟨e, he, .inr h⟩
  · rintro ⟨e, he, ⟨rfl, rfl⟩ | ⟨rfl, rfl⟩⟩
    · exact ⟨Sum.inl_ne_inr, .inl ⟨e, he, rfl, rfl⟩⟩
    · exact ⟨Sum.inr_ne_inl, .inr ⟨e, he, rfl, rfl⟩⟩

theorem adj_of_mem (he : e ∈ E) : (graph E).Adj (.inl e.2.1) (.inr e.2.2) :=
  adj_iff.mpr ⟨e, he, .inl ⟨rfl, rfl⟩⟩

theorem reachable_mono (h : E ⊆ E') (hr : (graph E).Reachable v w) : (graph E').Reachable v w := by
  refine hr.mono (fun v w hvw => ?_)
  obtain ⟨e, he, hends⟩ := adj_iff.mp hvw
  exact adj_iff.mpr ⟨e, h he, hends⟩

/-- A component in which there is an edge. -/
def HasEdge (C : (graph E).ConnectedComponent) : Prop := ∃ e ∈ E, .inl e.2.1 ∈ C.supp

/-- The labels of the edges in a component. -/
def labelsIn (C : (graph E).ConnectedComponent) : Set ε :=
  {o | ∃ e ∈ E, e.1 = o ∧ .inl e.2.1 ∈ C.supp}

/-- Vertices and labels that are put together. -/
structure Group (α β ε : Type) where
  left : Set α
  right : Set β
  labels : Set ε

def Group.vertices (g : Group α β ε) : Set (α ⊕ β) := {v | v.elim g.left g.right}

/-- One end of the edge is in the group. -/
def Group.Touches (g : Group α β ε) (e : ε × α × β) : Prop := e.2.1 ∈ g.left ∨ e.2.2 ∈ g.right

/-- The groups of some edges: each edge is in one, groups have no vertex in common, and what is in
one group is connected. -/
structure Grouping (E : Set (ε × α × β)) (gs : List (Group α β ε)) : Prop where
  covers : ∀ e ∈ E, ∃ g ∈ gs, e.1 ∈ g.labels ∧ e.2.1 ∈ g.left ∧ e.2.2 ∈ g.right
  apart : gs.Pairwise (fun g h => Disjoint g.vertices h.vertices)
  connected : ∀ g ∈ gs, ∀ v ∈ g.vertices, ∀ w ∈ g.vertices, (graph E).Reachable v w
  inhabited : ∀ g ∈ gs, ∃ e ∈ E, e.2.1 ∈ g.left
  labelled : ∀ g ∈ gs, ∀ o ∈ g.labels, ∃ e ∈ E, e.1 = o ∧ e.2.1 ∈ g.left

/-- The group of an edge: its label and its ends, and what the groups hold that it touches. -/
structure Joined (gs : List (Group α β ε)) (e : ε × α × β) (g : Group α β ε) : Prop where
  left : ∀ a, a ∈ g.left ↔ a = e.2.1 ∨ ∃ g' ∈ gs, g'.Touches e ∧ a ∈ g'.left
  right : ∀ b, b ∈ g.right ↔ b = e.2.2 ∨ ∃ g' ∈ gs, g'.Touches e ∧ b ∈ g'.right
  labels : ∀ o, o ∈ g.labels ↔ o = e.1 ∨ ∃ g' ∈ gs, g'.Touches e ∧ o ∈ g'.labels

variable {gs gs' : List (Group α β ε)} {g g' : Group α β ε}

theorem Joined.eq_or_mem (h : Joined gs e g) (hv : v ∈ g.vertices) :
    v = .inl e.2.1 ∨ v = .inr e.2.2 ∨ ∃ g' ∈ gs, g'.Touches e ∧ v ∈ g'.vertices := by
  cases v with
  | inl a => exact ((h.left a).mp hv).imp (congrArg Sum.inl) .inr
  | inr b => exact .inr (((h.right b).mp hv).imp (congrArg Sum.inr) id)

theorem Joined.mem_left (h : Joined gs e g) : e.2.1 ∈ g.left := (h.left _).mpr (.inl rfl)

/-- All that is in the group of an edge reaches the left end of the edge. -/
theorem Joined.reachable (h : Joined gs e g) (hgs : Grouping E gs) (hv : v ∈ g.vertices) :
    (graph (insert e E)).Reachable v (.inl e.2.1) := by
  have hedge : (graph (insert e E)).Reachable (.inr e.2.2) (.inl e.2.1) :=
    (adj_of_mem (Set.mem_insert e E)).symm.reachable
  have hmono : E ⊆ insert e E := Set.subset_insert e E
  obtain rfl | rfl | ⟨g', hg', ht | ht, hv'⟩ := h.eq_or_mem hv
  · exact Reachable.refl _
  · exact hedge
  · exact reachable_mono hmono (hgs.connected g' hg' v hv' _ ht)
  · exact (reachable_mono hmono (hgs.connected g' hg' v hv' (.inr e.2.2) ht)).trans hedge

namespace Grouping

theorem nil : Grouping (∅ : Set (ε × α × β)) [] where
  covers := nofun
  apart := List.Pairwise.nil
  connected := nofun
  inhabited := nofun
  labelled := nofun

theorem perm (h : Grouping E gs) (hp : gs'.Perm gs) : Grouping E gs' where
  covers e he := by
    obtain ⟨g, hg, hin⟩ := h.covers e he
    exact ⟨g, hp.mem_iff.mpr hg, hin⟩
  apart := (hp.pairwise_iff (fun hd => hd.symm)).mpr h.apart
  connected g hg := h.connected g (hp.mem_iff.mp hg)
  inhabited g hg := h.inhabited g (hp.mem_iff.mp hg)
  labelled g hg := h.labelled g (hp.mem_iff.mp hg)

theorem eq_of_mem (h : Grouping E gs) (hg : g ∈ gs) (hg' : g' ∈ gs) (hv : v ∈ g.vertices)
    (hv' : v ∈ g'.vertices) : g = g' := by
  by_contra hne
  have : Std.Symm (fun g h : Group α β ε => Disjoint g.vertices h.vertices) :=
    ⟨fun _ _ hd => hd.symm⟩
  exact (h.apart.forall hg hg' hne).ne_of_mem hv hv' rfl

theorem nodup (h : Grouping E gs) : gs.Nodup := by
  refine h.apart.imp_of_mem (fun hg _ hd he => ?_)
  obtain ⟨e, -, ha⟩ := h.inhabited _ hg
  have hv : Sum.inl e.2.1 ∈ Group.vertices _ := ha
  exact hd.ne_of_mem hv (he ▸ hv) rfl

/-- A group holds all that is reachable from what it holds. -/
theorem mem_vertices_iff (h : Grouping E gs) (hg : g ∈ gs) (hv : v ∈ g.vertices) :
    w ∈ g.vertices ↔ (graph E).Reachable v w := by
  refine ⟨h.connected g hg v hv w, fun hr => ?_⟩
  rw [reachable_iff_reflTransGen] at hr
  induction hr with
  | refl => exact hv
  | tail _ hadj ih =>
    obtain ⟨e, he, hends⟩ := adj_iff.mp hadj
    obtain ⟨g', hg', -, hl, hr⟩ := h.covers e he
    have hinl : Sum.inl e.2.1 ∈ g'.vertices := hl
    have hinr : Sum.inr e.2.2 ∈ g'.vertices := hr
    obtain ⟨rfl, rfl⟩ | ⟨rfl, rfl⟩ := hends
    · rwa [h.eq_of_mem hg hg' ih hinl]
    · rwa [h.eq_of_mem hg hg' ih hinr]

/-- Every vertex of a group is an end of an edge. -/
theorem exists_edge_of_mem (h : Grouping E gs) (hg : g ∈ gs) (hv : v ∈ g.vertices) :
    ∃ e ∈ E, v = .inl e.2.1 ∨ v = .inr e.2.2 := by
  obtain ⟨e, he, ha⟩ := h.inhabited g hg
  have hr := h.connected g hg v hv (.inl e.2.1) ha
  rw [reachable_iff_reflTransGen] at hr
  obtain rfl | ⟨w, hadj, -⟩ := hr.cases_head
  · exact ⟨e, he, .inl rfl⟩
  · obtain ⟨e', he', ⟨hl, -⟩ | ⟨-, hr⟩⟩ := adj_iff.mp hadj
    · exact ⟨e', he', .inl hl⟩
    · exact ⟨e', he', .inr hr⟩

/-- What an edge does to the groups: those it touches become one with its ends. -/
theorem join (h : Grouping E gs) (hg : Joined gs e g) {rest : List (Group α β ε)}
    (hsub : rest.Sublist gs) (hrest : ∀ g' ∈ gs, g' ∈ rest ↔ ¬ g'.Touches e) :
    Grouping (insert e E) (g :: rest) where
  covers e' he' := by
    obtain rfl | he' := he'
    · exact ⟨g, List.mem_cons_self, (hg.labels _).mpr (.inl rfl), hg.mem_left,
        (hg.right _).mpr (.inl rfl)⟩
    · obtain ⟨g', hg', ho, hl, hr⟩ := h.covers e' he'
      by_cases ht : g'.Touches e
      · exact ⟨g, List.mem_cons_self, (hg.labels _).mpr (.inr ⟨g', hg', ht, ho⟩),
          (hg.left _).mpr (.inr ⟨g', hg', ht, hl⟩), (hg.right _).mpr (.inr ⟨g', hg', ht, hr⟩)⟩
      · exact ⟨g', List.mem_cons_of_mem g ((hrest g' hg').mpr ht), ho, hl, hr⟩
  apart := by
    refine List.pairwise_cons.mpr ⟨fun g' hg' => ?_, h.apart.sublist hsub⟩
    have hgs : g' ∈ gs := hsub.subset hg'
    have hnot : ¬ g'.Touches e := (hrest g' hgs).mp hg'
    refine Set.disjoint_left.mpr (fun v hv hv' => ?_)
    obtain rfl | rfl | ⟨g₁, hg₁, ht, hv₁⟩ := hg.eq_or_mem hv
    · exact hnot (.inl hv')
    · exact hnot (.inr hv')
    · exact hnot (h.eq_of_mem hg₁ hgs hv₁ hv' ▸ ht)
  connected g' hg' v hv w hw := by
    obtain rfl | hg' := List.mem_cons.mp hg'
    · exact (hg.reachable h hv).trans (hg.reachable h hw).symm
    · exact reachable_mono (Set.subset_insert e E) (h.connected g' (hsub.subset hg') v hv w hw)
  inhabited g' hg' := by
    obtain rfl | hg' := List.mem_cons.mp hg'
    · exact ⟨e, Set.mem_insert e E, hg.mem_left⟩
    · obtain ⟨e', he', ha⟩ := h.inhabited g' (hsub.subset hg')
      exact ⟨e', Set.mem_insert_of_mem e he', ha⟩
  labelled g' hg' o hog := by
    obtain rfl | hg' := List.mem_cons.mp hg'
    · obtain rfl | ⟨g₁, hg₁, ht, hog₁⟩ := (hg.labels o).mp hog
      · exact ⟨e, Set.mem_insert e E, rfl, hg.mem_left⟩
      · obtain ⟨e', he', hlabel, ha⟩ := h.labelled g₁ hg₁ o hog₁
        exact ⟨e', Set.mem_insert_of_mem e he', hlabel, (hg.left _).mpr (.inr ⟨g₁, hg₁, ht, ha⟩)⟩
    · obtain ⟨e', he', hlabel, ha⟩ := h.labelled g' (hsub.subset hg') o hog
      exact ⟨e', Set.mem_insert_of_mem e he', hlabel, ha⟩

/-- A group and the component that it is. -/
structure Is (g : Group α β ε) (C : (graph E).ConnectedComponent) : Prop where
  vertices : g.vertices = C.supp
  labels : g.labels = labelsIn C

theorem exists_is (h : Grouping E gs) (hg : g ∈ gs) :
    ∃ C : (graph E).ConnectedComponent, Is g C ∧ HasEdge C := by
  obtain ⟨e, he, ha⟩ := h.inhabited g hg
  have hsupp : ∀ w, w ∈ g.vertices ↔
      w ∈ ((graph E).connectedComponentMk (.inl e.2.1)).supp := by
    intro w
    rw [h.mem_vertices_iff hg (v := .inl e.2.1) ha, ConnectedComponent.mem_supp_iff,
      ConnectedComponent.eq]
    exact ⟨Reachable.symm, Reachable.symm⟩
  refine ⟨(graph E).connectedComponentMk (.inl e.2.1), ⟨Set.ext hsupp, Set.ext (fun o => ?_)⟩,
    e, he, (hsupp _).mp ha⟩
  constructor
  · intro ho
    obtain ⟨e', he', hlabel, ha'⟩ := h.labelled g hg o ho
    exact ⟨e', he', hlabel, (hsupp (.inl e'.2.1)).mp ha'⟩
  · rintro ⟨e', he', rfl, ha'⟩
    obtain ⟨g', hg', ho, hl, -⟩ := h.covers e' he'
    rwa [h.eq_of_mem hg hg' ((hsupp _).mpr ha') hl]

/-- The groups are the components with an edge, each once. -/
theorem exists_components (h : Grouping E gs) :
    ∃ Cs : List (graph E).ConnectedComponent, Cs.Nodup ∧ (∀ C, C ∈ Cs ↔ HasEdge C) ∧
      List.Forall₂ Is gs Cs := by
  have hedge : ∀ C : (graph E).ConnectedComponent, HasEdge C →
      ∃ g ∈ gs, ∀ C', Is g C' → C' = C := by
    rintro C ⟨e, he, hC⟩
    obtain ⟨g, hg, -, hl, -⟩ := h.covers e he
    refine ⟨g, hg, fun C' hC' => ?_⟩
    have hmem : Sum.inl e.2.1 ∈ C'.supp := hC'.vertices ▸ hl
    exact ((ConnectedComponent.mem_supp_iff _ _).mp hmem).symm.trans
      ((ConnectedComponent.mem_supp_iff _ _).mp hC)
  cases gs with
  | nil =>
    refine ⟨[], List.nodup_nil, fun C => ⟨nofun, fun hC => ?_⟩, .nil⟩
    obtain ⟨g, hg, -⟩ := hedge C hC
    cases hg
  | cons g₀ gs =>
    have : Nonempty (graph E).ConnectedComponent := ⟨(h.exists_is List.mem_cons_self).choose⟩
    choose! component hcomponent using fun g hg => h.exists_is (g := g) hg
    refine ⟨(g₀ :: gs).map component, ?_, fun C => ?_, ?_⟩
    · refine List.pairwise_map.mpr (h.apart.imp_of_mem (fun hg hg' hd he => ?_))
      obtain ⟨v, hv⟩ := (component _).nonempty_supp
      rw [(hcomponent _ hg).1.vertices, (hcomponent _ hg').1.vertices, he] at hd
      exact hd.ne_of_mem (he ▸ hv) (he ▸ hv) rfl
    · rw [List.mem_map]
      constructor
      · rintro ⟨g, hg, rfl⟩
        exact (hcomponent g hg).2
      · intro hC
        obtain ⟨g, hg, he⟩ := hedge C hC
        exact ⟨g, hg, he _ (hcomponent g hg).1⟩
    · rw [List.forall₂_map_right_iff, List.forall₂_same]
      exact fun g hg => (hcomponent g hg).1

end Grouping

end MiningpoolObserver.Library.Components
