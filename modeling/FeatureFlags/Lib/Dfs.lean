import FeatureFlags.Go.Basic

/-!
# Depth-limited depth-first search with memoisation

A graph is a function `succ` from a node to the list of its successors.  `visit succ n v` explores
`v` with `n` levels left: it fails on a node that is being explored (a cycle) and on a node met with
no level left, and returns at once on a node explored before.  `visitAll` visits the roots in order,
sharing the explored nodes.

Because an explored node is not entered again, its depth is checked along the first path that
reaches it only.  The results below say what is left of the two checks.

* `Explored`: what a successful search does to the state, in one structure.
* `wellFounded_of_visitAll`: success rules out cycles.
* `visitAll_of_bounded`: without cycles and with all paths within the limit, every order succeeds.
* `visitAll_of_fresh`: if the search from each root alone succeeds, every order succeeds
  (`visit_mono`: nodes explored before only prune the search).
* `exists_perm_visitAll`: without cycles and with two levels, some order succeeds, however long the
  paths are.
* `runAll_iff`: the recursion that counts the depth up terminates, with the same result.
-/

namespace FeatureFlags.Dfs

open Relation Go

variable {α : Type}

/-! ### Graphs -/

/-- `w` is a successor of `v`. -/
def Edge (succ : α → List α) (v w : α) : Prop := w ∈ succ v

/-- Every path from `v` has at most `n` edges. -/
def Bounded (succ : α → List α) : Nat → α → Prop
  | 0, v => succ v = []
  | n + 1, v => ∀ w ∈ succ v, Bounded succ n w

variable {succ : α → List α}

variable {n : Nat}

theorem Bounded.mono : ∀ {v : α}, Bounded succ n v → Bounded succ (n + 1) v := by
  induction n with
  | zero =>
    intro v h w hw
    rw [show succ v = [] from h] at hw
    cases hw
  | succ n ih => exact fun h w hw => ih (h w hw)

/-- Fewer edges have no longer paths. -/
theorem Bounded.of_subset {succ' : α → List α} (hsub : ∀ v w, w ∈ succ' v → w ∈ succ v) :
    ∀ {v : α}, Bounded succ n v → Bounded succ' n v := by
  induction n with
  | zero =>
    intro v h
    rw [Bounded] at h
    refine List.eq_nil_iff_forall_not_mem.mpr fun w hw => ?_
    have := hsub v w hw
    rw [h] at this
    cases this
  | succ n ih => exact fun h w hw => ih (h w (hsub _ w hw))

variable {v : α}

theorem Bounded.mono_le {m : Nat} (hnm : n ≤ m) (h : Bounded succ n v) : Bounded succ m v := by
  induction hnm with
  | refl => exact h
  | step _ ih => exact ih.mono

theorem Bounded.step {w : α} (h : Bounded succ n v) (hw : w ∈ succ v) :
    ∃ m, n = m + 1 ∧ Bounded succ m w := by
  cases n with
  | zero =>
    rw [show succ v = [] from h] at hw
    cases hw
  | succ n => exact ⟨n, rfl, h w hw⟩

/-- The bound shrinks along a path. -/
theorem Bounded.transGen {w : α} (h : Bounded succ n v) (hvw : TransGen (Edge succ) v w) :
    ∃ m, m < n ∧ Bounded succ m w := by
  induction hvw with
  | single hw =>
    obtain ⟨m, rfl, hm⟩ := h.step hw
    exact ⟨m, Nat.lt_succ_self m, hm⟩
  | tail _ hw ih =>
    obtain ⟨m, hmn, hm⟩ := ih
    obtain ⟨k, rfl, hk⟩ := hm.step hw
    exact ⟨k, by omega, hk⟩

/-- A node with bounded paths lies on no cycle. -/
theorem Bounded.irrefl : ∀ {n : Nat}, Bounded succ n v → ¬ TransGen (Edge succ) v v := by
  intro n
  induction n using Nat.strong_induction_on with
  | _ n ih =>
    intro h hvv
    obtain ⟨m, hmn, hm⟩ := h.transGen hvv
    exact ih m hmn hm hvv

/-- The bound in terms of explicit paths. -/
theorem bounded_iff : ∀ {v : α}, Bounded succ n v ↔
    ∀ l : List α, (v :: l).IsChain (Edge succ) → l.length ≤ n := by
  induction n with
  | zero =>
    intro v
    constructor
    · intro h l hl
      cases l with
      | nil => simp
      | cons w l =>
        have hw : w ∈ succ v := (List.isChain_cons_cons.mp hl).1
        rw [show succ v = [] from h] at hw
        cases hw
    · intro h
      refine List.eq_nil_iff_forall_not_mem.mpr fun w hw => ?_
      have := h [w] (List.isChain_cons_cons.mpr ⟨hw, List.isChain_singleton w⟩)
      simp at this
  | succ n ih =>
    intro v
    constructor
    · intro h l hl
      cases l with
      | nil => simp
      | cons w l =>
        obtain ⟨hw, hl⟩ := List.isChain_cons_cons.mp hl
        have := ih.mp (h w hw) l hl
        simp only [List.length_cons]
        omega
    · intro h w hw
      refine ih.mpr fun l hl => ?_
      have := h (w :: l) (List.isChain_cons_cons.mpr ⟨hw, hl⟩)
      simp only [List.length_cons] at this
      omega

variable {l : List α}

/-- If all nodes are bounded, so are all paths. -/
theorem length_le_of_bounded (h : ∀ v, Bounded succ n v) (hl : l.IsChain (Edge succ)) :
    l.length ≤ n + 1 := by
  cases l with
  | nil => exact Nat.zero_le _
  | cons v l => exact Nat.succ_le_succ (bounded_iff.mp (h v) l hl)

/-- Without cycles every node has bounded paths. -/
theorem exists_bounded (h : Acc (fun w v => w ∈ succ v) v) : ∃ n, Bounded succ n v := by
  induction h with
  | intro v _ ih =>
    suffices hl : ∀ l : List α, (∀ w ∈ l, w ∈ succ v) → ∃ n, ∀ w ∈ l, Bounded succ n w by
      obtain ⟨n, hn⟩ := hl (succ v) fun _ hw => hw
      exact ⟨n + 1, hn⟩
    intro l
    induction l with
    | nil => exact fun _ => ⟨0, fun w hw => by cases hw⟩
    | cons w l ihl =>
      intro hl
      obtain ⟨n, hn⟩ := ihl fun x hx => hl x (List.mem_cons_of_mem _ hx)
      obtain ⟨m, hm⟩ := ih w (hl w (List.mem_cons_self ..))
      refine ⟨max n m, fun x hx => ?_⟩
      rcases List.mem_cons.mp hx with rfl | hx
      · exact hm.mono_le (Nat.le_max_right n m)
      · exact (hn x hx).mono_le (Nat.le_max_left n m)

/-- Finitely many nodes without cycles have a common bound. -/
theorem exists_forall_bounded (h : WellFounded fun w v => w ∈ succ v) (nodes : List α) :
    ∃ n, ∀ v ∈ nodes, Bounded succ n v := by
  induction nodes with
  | nil => exact ⟨0, fun v hv => by cases hv⟩
  | cons v nodes ih =>
    obtain ⟨n, hn⟩ := ih
    obtain ⟨m, hm⟩ := exists_bounded (h.apply v)
    refine ⟨max n m, fun x hx => ?_⟩
    rcases List.mem_cons.mp hx with rfl | hx
    · exact hm.mono_le (Nat.le_max_right n m)
    · exact (hn x hx).mono_le (Nat.le_max_left n m)

/-! ### Topological lists -/

/-- Every node of the list has its successors after it. -/
def Topo (succ : α → List α) : List α → Prop
  | [] => True
  | v :: l => (∀ w ∈ succ v, w ∈ l) ∧ Topo succ l

theorem Topo.closed (h : Topo succ l) : ∀ {v w : α}, v ∈ l → w ∈ succ v → w ∈ l := by
  induction l with
  | nil => intro v w hv; cases hv
  | cons x l ih =>
    intro v w hv hw
    rcases List.mem_cons.mp hv with rfl | hv
    · exact List.mem_cons_of_mem _ (h.1 w hw)
    · exact List.mem_cons_of_mem _ (ih h.2 hv hw)

theorem Topo.closed_reach (h : Topo succ l) {w : α} (hv : v ∈ l)
    (hvw : ReflTransGen (Edge succ) v w) : w ∈ l := by
  induction hvw with
  | refl => exact hv
  | tail _ hw ih => exact h.closed ih hw

/-- The nodes of a topological list are well founded: successors stand later. -/
theorem Topo.acc (h : Topo succ l) : ∀ {v : α}, v ∈ l → Acc (fun w v => w ∈ succ v) v := by
  induction l with
  | nil => intro v hv; cases hv
  | cons x l ih =>
    intro v hv
    rcases List.mem_cons.mp hv with rfl | hv
    · exact Acc.intro v fun w hw => ih h.2 (h.1 w hw)
    · exact ih h.2 hv

/-! ### The search -/

/-- The nodes explored so far and the nodes being explored. -/
structure State (α : Type) where
  visited : List α
  visiting : List α

/-- Nothing explored. -/
def State.empty : State α := ⟨[], []⟩

/-- Why a search fails. -/
inductive Failure (α : Type) where
  /-- A node was met with no level left. -/
  | tooDeep (v : α)
  /-- A node was met while it was being explored. -/
  | cycle (v : α)
deriving DecidableEq

variable [DecidableEq α]

/-- Explore `v` with `n` levels left. -/
def visit (succ : α → List α) : Nat → α → State α → Except (Failure α) (State α)
  | 0, v, _ => .error (.tooDeep v)
  | n + 1, v, s =>
    if v ∈ s.visiting then .error (.cycle v)
    else if v ∈ s.visited then .ok s
    else do
      let s' ← (succ v).foldlM (fun s w => visit succ n w s) ⟨s.visited, v :: s.visiting⟩
      return ⟨v :: s'.visited, s'.visiting.erase v⟩

/-- Explore the roots in order. -/
def visitAll (succ : α → List α) (n : Nat) (roots : List α) (s : State α) :
    Except (Failure α) (State α) :=
  roots.foldlM (fun s v => visit succ n v s) s

variable {s s' : State α}

/-- What a successful visit does. -/
theorem visit_eq_ok_iff :
    visit succ n v s = .ok s' ↔ ∃ m, n = m + 1 ∧ v ∉ s.visiting ∧
      (v ∈ s.visited ∧ s' = s ∨
        v ∉ s.visited ∧ ∃ s₁, visitAll succ m (succ v) ⟨s.visited, v :: s.visiting⟩ = .ok s₁ ∧
          s' = ⟨v :: s₁.visited, s₁.visiting.erase v⟩) := by
  cases n with
  | zero => simp [visit]
  | succ n =>
    rw [visit]
    by_cases hv : v ∈ s.visiting
    · simp [hv]
    · by_cases hd : v ∈ s.visited
      · simp [hv, hd, eq_comm]
      · rw [if_neg hv, if_neg hd, bind_eq_ok]
        constructor
        · rintro ⟨s₁, h₁, h₂⟩
          exact ⟨n, rfl, hv, .inr ⟨hd, s₁, h₁, (pure_eq_ok.mp h₂).symm⟩⟩
        · rintro ⟨m, hm, -, ⟨hd', -⟩ | ⟨-, s₁, h₁, rfl⟩⟩
          · exact absurd hd' hd
          · cases hm
            exact ⟨s₁, h₁, rfl⟩

@[simp] theorem visitAll_nil : visitAll succ n [] s = .ok s := rfl

theorem visitAll_cons_eq_ok_iff :
    visitAll succ n (v :: l) s = .ok s' ↔
      ∃ s₁, visit succ n v s = .ok s₁ ∧ visitAll succ n l s₁ = .ok s' := by
  simp [visitAll, List.foldlM_cons]

theorem visitAll_append_eq_ok_iff {l₁ l₂ : List α} :
    visitAll succ n (l₁ ++ l₂) s = .ok s' ↔
      ∃ s₁, visitAll succ n l₁ s = .ok s₁ ∧ visitAll succ n l₂ s₁ = .ok s' := by
  simp [visitAll, List.foldlM_append]

/-! ### What success establishes -/

/-- The effect of a successful search from `roots`. -/
structure Explored (succ : α → List α) (roots : List α) (s s' : State α) : Prop where
  /-- The nodes being explored are restored. -/
  visiting : s'.visiting = s.visiting
  /-- Nothing is forgotten. -/
  mono : ∀ v ∈ s.visited, v ∈ s'.visited
  /-- The roots are explored. -/
  rooted : ∀ v ∈ roots, v ∈ s'.visited
  /-- Only nodes below the roots are explored. -/
  reached : ∀ w ∈ s'.visited, w ∈ s.visited ∨ ∃ v ∈ roots, ReflTransGen (Edge succ) v w
  /-- A node is recorded after its successors. -/
  topo : Topo succ s.visited → Topo succ s'.visited
  /-- A node is recorded once. -/
  nodup : s.visited.Nodup → s'.visited.Nodup

omit [DecidableEq α] in
theorem Explored.nil (s : State α) : Explored succ [] s s :=
  ⟨rfl, fun _ h => h, fun _ h => (by cases h), fun _ h => .inl h, id, id⟩

omit [DecidableEq α] in
theorem Explored.cons {s₁ : State α} (h₁ : Explored succ [v] s s₁) (h₂ : Explored succ l s₁ s') :
    Explored succ (v :: l) s s' where
  visiting := h₂.visiting.trans h₁.visiting
  mono w hw := h₂.mono w (h₁.mono w hw)
  rooted w hw := by
    rcases List.mem_cons.mp hw with rfl | hw
    · exact h₂.mono w (h₁.rooted w (List.mem_cons_self ..))
    · exact h₂.rooted w hw
  reached w hw := by
    rcases h₂.reached w hw with hw | ⟨x, hx, hxw⟩
    · rcases h₁.reached w hw with hw | ⟨x, hx, hxw⟩
      · exact .inl hw
      · rw [List.mem_singleton] at hx
        exact .inr ⟨v, List.mem_cons_self .., hx ▸ hxw⟩
    · exact .inr ⟨x, List.mem_cons_of_mem _ hx, hxw⟩
  topo h := h₂.topo (h₁.topo h)
  nodup h := h₂.nodup (h₁.nodup h)

theorem explored_of_visitAll
    (hvisit : ∀ v s s', visit succ n v s = .ok s' → Explored succ [v] s s') :
    ∀ (l : List α) {s s' : State α}, visitAll succ n l s = .ok s' → Explored succ l s s' := by
  intro l
  induction l with
  | nil =>
    intro s s' h
    rw [visitAll_nil] at h
    cases h
    exact Explored.nil s
  | cons v l ih =>
    intro s s' h
    obtain ⟨s₁, h₁, h₂⟩ := visitAll_cons_eq_ok_iff.mp h
    exact (hvisit v s s₁ h₁).cons (ih h₂)

/-- A recorded node that is met below itself was being explored, so the new node is recorded
once. -/
theorem visit_explored (n : Nat) : ∀ (v : α) (s s' : State α), visit succ n v s = .ok s' →
    Explored succ [v] s s' ∧ ∀ w ∈ s.visiting, w ∈ s'.visited → w ∈ s.visited := by
  induction n with
  | zero => intro v s s' h; simp [visit] at h
  | succ n ih =>
    intro v s s' h
    obtain ⟨m, hm, hv, ⟨hd, rfl⟩ | ⟨hd, s₁, h₁, rfl⟩⟩ := visit_eq_ok_iff.mp h
    · refine ⟨⟨rfl, fun _ hw => hw, fun w hw => ?_, fun _ hw => .inl hw, id, id⟩, fun _ _ hw => hw⟩
      rw [List.mem_singleton] at hw
      exact hw ▸ hd
    · obtain rfl : m = n := by omega
      have hexp := explored_of_visitAll (fun v s s' h => (ih v s s' h).1) _ h₁
      -- Nothing that is being explored is recorded meanwhile, `v` least of all.
      have hkeep : ∀ (l : List α) (s s' : State α), visitAll succ m l s = .ok s' →
          ∀ w ∈ s.visiting, w ∈ s'.visited → w ∈ s.visited := by
        intro l
        induction l with
        | nil =>
          intro s s' h w _ hw
          rw [visitAll_nil] at h
          cases h
          exact hw
        | cons x l ihl =>
          intro s s' h w hws hw
          obtain ⟨s₂, h₂, h₃⟩ := visitAll_cons_eq_ok_iff.mp h
          have hx := ih x s s₂ h₂
          exact hx.2 w hws (ihl s₂ s' h₃ w (by rw [hx.1.visiting]; exact hws) hw)
      have hvs₁ : v ∉ s₁.visited := fun hmem =>
        hd (hkeep _ _ _ h₁ v (List.mem_cons_self ..) hmem)
      refine ⟨⟨?_, ?_, ?_, ?_, ?_, ?_⟩, ?_⟩
      · rw [hexp.visiting, List.erase_cons_head]
      · exact fun w hw => List.mem_cons_of_mem _ (hexp.mono w hw)
      · intro w hw
        rw [List.mem_singleton] at hw
        exact hw ▸ List.mem_cons_self ..
      · intro w hw
        rcases List.mem_cons.mp hw with rfl | hw
        · exact .inr ⟨w, List.mem_cons_self .., ReflTransGen.refl⟩
        · rcases hexp.reached w hw with hw | ⟨x, hx, hxw⟩
          · exact .inl hw
          · exact .inr ⟨v, List.mem_cons_self .., ReflTransGen.head hx hxw⟩
      · exact fun ht => ⟨hexp.rooted, hexp.topo ht⟩
      · exact fun hn => List.nodup_cons.mpr ⟨hvs₁, hexp.nodup hn⟩
      · intro w hws hw
        rcases List.mem_cons.mp hw with rfl | hw
        · exact absurd hws hv
        · exact hkeep _ _ _ h₁ w (List.mem_cons_of_mem _ hws) hw

theorem visitAll_explored (h : visitAll succ n l s = .ok s') : Explored succ l s s' :=
  explored_of_visitAll (fun v s s' h => (visit_explored n v s s' h).1) l h

/-- The explored nodes of a search from scratch, in topological order. -/
theorem topo_of_visitAll (h : visitAll succ n l .empty = .ok s') : Topo succ s'.visited :=
  (visitAll_explored h).topo trivial

/-- Success from all nodes that have successors rules out cycles. -/
theorem wellFounded_of_visitAll (h : visitAll succ n l .empty = .ok s')
    (hl : ∀ v, succ v ≠ [] → v ∈ l) : WellFounded fun w v => w ∈ succ v := by
  refine ⟨fun v => ?_⟩
  by_cases hv : succ v = []
  · exact Acc.intro v fun w hw => by rw [hv] at hw; cases hw
  · exact (topo_of_visitAll h).acc ((visitAll_explored h).rooted v (hl v hv))

/-! ### When it succeeds -/

/-- One visit succeeds if all paths fit and no ancestor is met again. -/
theorem visit_of_bounded (n : Nat) : ∀ (v : α) (s : State α), Bounded succ n v →
    (∀ u ∈ s.visiting, TransGen (Edge succ) u v) → ∃ s', visit succ (n + 1) v s = .ok s' := by
  induction n with
  | zero =>
    intro v s hb hs
    have hv : v ∉ s.visiting := fun hv => hb.irrefl (hs v hv)
    have hnil : succ v = [] := hb
    by_cases hd : v ∈ s.visited
    · exact ⟨s, visit_eq_ok_iff.mpr ⟨0, rfl, hv, .inl ⟨hd, rfl⟩⟩⟩
    · have hall : visitAll succ 0 (succ v) ⟨s.visited, v :: s.visiting⟩ =
          .ok ⟨s.visited, v :: s.visiting⟩ := by
        rw [hnil, visitAll_nil]
      exact ⟨_, visit_eq_ok_iff.mpr ⟨0, rfl, hv, .inr ⟨hd, _, hall, rfl⟩⟩⟩
  | succ n ih =>
    intro v s hb hs
    have hv : v ∉ s.visiting := fun hv => hb.irrefl (hs v hv)
    by_cases hd : v ∈ s.visited
    · exact ⟨s, visit_eq_ok_iff.mpr ⟨n + 1, rfl, hv, .inl ⟨hd, rfl⟩⟩⟩
    · suffices hl : ∀ (l : List α) (s : State α), (∀ w ∈ l, w ∈ succ v) →
          (∀ u ∈ s.visiting, u = v ∨ TransGen (Edge succ) u v) →
          ∃ s', visitAll succ (n + 1) l s = .ok s' by
        obtain ⟨s₁, h₁⟩ := hl (succ v) ⟨s.visited, v :: s.visiting⟩ (fun _ hw => hw) (by
          intro u hu
          rcases List.mem_cons.mp hu with rfl | hu
          · exact .inl rfl
          · exact .inr (hs u hu))
        exact ⟨_, visit_eq_ok_iff.mpr ⟨n + 1, rfl, hv, .inr ⟨hd, s₁, h₁, rfl⟩⟩⟩
      intro l
      induction l with
      | nil => exact fun s _ _ => ⟨s, rfl⟩
      | cons w l ihl =>
        intro s hl hs
        have hw : w ∈ succ v := hl w (List.mem_cons_self ..)
        obtain ⟨s₁, h₁⟩ := ih w s (hb w hw) fun u hu => by
          rcases hs u hu with rfl | hu
          · exact TransGen.single hw
          · exact hu.tail hw
        obtain ⟨s', h'⟩ := ihl s₁ (fun x hx => hl x (List.mem_cons_of_mem _ hx)) (by
          rw [(visit_explored _ _ _ _ h₁).1.visiting]
          exact hs)
        exact ⟨s', visitAll_cons_eq_ok_iff.mpr ⟨s₁, h₁, h'⟩⟩

/-- **Completeness**: every order of the roots succeeds if all paths fit. -/
theorem visitAll_of_bounded (l : List α) (hb : ∀ v ∈ l, Bounded succ n v) :
    ∀ s : State α, s.visiting = [] → ∃ s', visitAll succ (n + 1) l s = .ok s' := by
  induction l with
  | nil => exact fun s _ => ⟨s, rfl⟩
  | cons v l ih =>
    intro s hs
    obtain ⟨s₁, h₁⟩ := visit_of_bounded n v s (hb v (List.mem_cons_self ..)) fun u hu => by
      rw [hs] at hu
      cases hu
    obtain ⟨s', h'⟩ := ih (fun w hw => hb w (List.mem_cons_of_mem _ hw)) s₁ (by
      rw [(visit_explored _ _ _ _ h₁).1.visiting, hs])
    exact ⟨s', visitAll_cons_eq_ok_iff.mpr ⟨s₁, h₁, h'⟩⟩

/-! ### Explored nodes only prune -/

/-- A search that succeeds still succeeds when more nodes are known. -/
theorem visit_mono (n : Nat) : ∀ (v : α) (s s' t : State α), visit succ n v s = .ok s' →
    (∀ w ∈ s.visited, w ∈ t.visited) → s.visiting = t.visiting → Topo succ t.visited →
    ∃ t', visit succ n v t = .ok t' ∧ ∀ w ∈ s'.visited, w ∈ t'.visited := by
  induction n with
  | zero => intro v s s' t h; simp [visit] at h
  | succ n ih =>
    intro v s s' t h hsub hvis ht
    obtain ⟨m, hm, hv, hcase⟩ := visit_eq_ok_iff.mp h
    obtain rfl : m = n := by omega
    have hexp := (visit_explored _ _ _ _ h).1
    by_cases hd : v ∈ t.visited
    · refine ⟨t, visit_eq_ok_iff.mpr ⟨m, rfl, hvis ▸ hv, .inl ⟨hd, rfl⟩⟩, fun w hw => ?_⟩
      rcases hexp.reached w hw with hw | ⟨x, hx, hxw⟩
      · exact hsub w hw
      · rw [List.mem_singleton] at hx
        exact ht.closed_reach hd (hx ▸ hxw)
    · obtain ⟨hd', -⟩ | ⟨hd', s₁, h₁, rfl⟩ := hcase
      · exact absurd (hsub v hd') hd
      · suffices hl : ∀ (l : List α) (s s' t : State α), visitAll succ m l s = .ok s' →
            (∀ w ∈ s.visited, w ∈ t.visited) → s.visiting = t.visiting → Topo succ t.visited →
            ∃ t', visitAll succ m l t = .ok t' ∧ ∀ w ∈ s'.visited, w ∈ t'.visited by
          obtain ⟨t₁, ht₁, hsub₁⟩ := hl (succ v) _ s₁ ⟨t.visited, v :: t.visiting⟩ h₁ hsub
            (by rw [hvis]) ht
          refine ⟨_, visit_eq_ok_iff.mpr ⟨m, rfl, hvis ▸ hv, .inr ⟨hd, t₁, ht₁, rfl⟩⟩, ?_⟩
          intro w hw
          rcases List.mem_cons.mp hw with rfl | hw
          · exact List.mem_cons_self ..
          · exact List.mem_cons_of_mem _ (hsub₁ w hw)
        intro l
        induction l with
        | nil =>
          intro s s' t h hsub _ _
          rw [visitAll_nil] at h
          cases h
          exact ⟨t, rfl, hsub⟩
        | cons x l ihl =>
          intro s s' t h hsub hvis ht
          obtain ⟨s₂, h₂, h₃⟩ := visitAll_cons_eq_ok_iff.mp h
          obtain ⟨t₂, ht₂, hsub₂⟩ := ih x s s₂ t h₂ hsub hvis ht
          have hs₂ := (visit_explored _ _ _ _ h₂).1
          have ht₂' := (visit_explored _ _ _ _ ht₂).1
          obtain ⟨t', ht', hsub'⟩ := ihl s₂ s' t₂ h₃ hsub₂
            (by rw [hs₂.visiting, ht₂'.visiting, hvis]) (ht₂'.topo ht)
          exact ⟨t', visitAll_cons_eq_ok_iff.mpr ⟨t₂, ht₂, ht'⟩, hsub'⟩

/-- The search from each root alone decides every order of the roots. -/
theorem visitAll_of_fresh (l : List α) (hl : ∀ v ∈ l, ∃ s', visit succ n v .empty = .ok s') :
    ∀ t : State α, t.visiting = [] → Topo succ t.visited → ∃ t', visitAll succ n l t = .ok t' := by
  induction l with
  | nil => exact fun t _ _ => ⟨t, rfl⟩
  | cons v l ih =>
    intro t hvis ht
    obtain ⟨s', hs'⟩ := hl v (List.mem_cons_self ..)
    obtain ⟨t₁, ht₁, -⟩ := visit_mono n v .empty s' t hs' (fun w hw => by cases hw) hvis.symm ht
    have hexp := (visit_explored _ _ _ _ ht₁).1
    obtain ⟨t', ht'⟩ := ih (fun w hw => hl w (List.mem_cons_of_mem _ hw)) t₁
      (hexp.visiting.trans hvis) (hexp.topo ht)
    exact ⟨t', visitAll_cons_eq_ok_iff.mpr ⟨t₁, ht₁, ht'⟩⟩

/-! ### Without levels to spare -/

/-- With no level, only the empty search succeeds. -/
theorem visitAll_zero_iff : (∃ s', visitAll succ 0 l s = .ok s') ↔ l = [] := by
  cases l with
  | nil => simp [visitAll_nil]
  | cons v l => simp [visitAll_cons_eq_ok_iff, visit]

/-- With one level, a search succeeds if it meets no edge. -/
theorem visitAll_one_iff : (∃ s', visitAll succ 1 l .empty = .ok s') ↔ ∀ v ∈ l, succ v = [] := by
  constructor
  · rintro ⟨s', h⟩ v hv
    have hexp := visitAll_explored h
    -- every explored node was entered with no level below it
    suffices hall : ∀ (l : List α) (s s' : State α), visitAll succ 1 l s = .ok s' →
        (∀ w ∈ s.visited, succ w = []) → ∀ w ∈ s'.visited, succ w = [] from
      hall l .empty s' h (fun w hw => by cases hw) v (hexp.rooted v hv)
    intro l
    induction l with
    | nil => rintro s s' h hs; cases h; exact hs
    | cons v l ih =>
      intro s s' h hs
      obtain ⟨s₁, h₁, h₂⟩ := visitAll_cons_eq_ok_iff.mp h
      refine ih s₁ s' h₂ ?_
      obtain ⟨m, hm, -, hcase⟩ := visit_eq_ok_iff.mp h₁
      obtain rfl : m = 0 := by omega
      rcases hcase with ⟨-, rfl⟩ | ⟨-, s₂, h₃, rfl⟩
      · exact hs
      · have hnil : succ v = [] := visitAll_zero_iff.mp ⟨_, h₃⟩
        rw [hnil, visitAll_nil] at h₃
        cases h₃
        intro w hw
        rcases List.mem_cons.mp hw with rfl | hw
        · exact hnil
        · exact hs w hw
  · intro h
    exact visitAll_of_bounded (n := 0) l h .empty rfl

/-! ### Successors first -/

/-- With two levels, a topological list succeeds from its end. -/
theorem visitAll_reverse_of_topo (h : Topo succ l) :
    ∃ s', visitAll succ (n + 2) l.reverse .empty = .ok s' := by
  induction l with
  | nil => exact ⟨_, rfl⟩
  | cons v l ih =>
    obtain ⟨s₁, h₁⟩ := ih h.2
    have hexp := visitAll_explored h₁
    rw [List.reverse_cons]
    have hvis : s₁.visiting = [] := hexp.visiting
    have hroots : ∀ w ∈ l, w ∈ s₁.visited := fun w hw => hexp.rooted w (List.mem_reverse.mpr hw)
    suffices hv : ∃ s', visit succ (n + 2) v s₁ = .ok s' by
      obtain ⟨s', hs'⟩ := hv
      exact ⟨s', visitAll_append_eq_ok_iff.mpr ⟨s₁, h₁, visitAll_cons_eq_ok_iff.mpr ⟨s', hs', rfl⟩⟩⟩
    by_cases hd : v ∈ s₁.visited
    · exact ⟨s₁, visit_eq_ok_iff.mpr ⟨n + 1, rfl, by simp [hvis], .inl ⟨hd, rfl⟩⟩⟩
    · -- Every successor is known already, so one more level is enough.
      suffices hl : ∀ ws : List α, (∀ w ∈ ws, w ∈ succ v) →
          visitAll succ (n + 1) ws ⟨s₁.visited, v :: s₁.visiting⟩ =
            .ok ⟨s₁.visited, v :: s₁.visiting⟩ by
        exact ⟨_, visit_eq_ok_iff.mpr
          ⟨n + 1, rfl, by simp [hvis], .inr ⟨hd, _, hl (succ v) fun _ hw => hw, rfl⟩⟩⟩
      intro ws
      induction ws with
      | nil => exact fun _ => rfl
      | cons w ws ihw =>
        intro hws
        have hw : w ∈ s₁.visited := hroots w (h.1 w (hws w (List.mem_cons_self ..)))
        refine visitAll_cons_eq_ok_iff.mpr ⟨_, visit_eq_ok_iff.mpr ⟨n, rfl, ?_, .inl ⟨hw, rfl⟩⟩,
          ihw fun x hx => hws x (List.mem_cons_of_mem _ hx)⟩
        rw [hvis, List.mem_singleton]
        rintro rfl
        exact hd hw

/-- Without cycles some order succeeds, whatever the length of the paths. -/
theorem exists_perm_visitAll (hwf : WellFounded fun w v => w ∈ succ v) {nodes : List α}
    (hnodup : nodes.Nodup) (hclosed : ∀ v ∈ nodes, ∀ w ∈ succ v, w ∈ nodes) :
    ∃ l s', l.Perm nodes ∧ visitAll succ (n + 2) l .empty = .ok s' := by
  obtain ⟨k, hk⟩ := exists_forall_bounded hwf nodes
  obtain ⟨s₁, h₁⟩ := visitAll_of_bounded nodes hk .empty rfl
  have hexp := visitAll_explored h₁
  obtain ⟨s', hs'⟩ := visitAll_reverse_of_topo (n := n) (topo_of_visitAll h₁)
  refine ⟨s₁.visited.reverse, s', ?_, hs'⟩
  refine (List.reverse_perm _).trans
    ((List.perm_ext_iff_of_nodup (hexp.nodup List.nodup_nil) hnodup).mpr
      fun w => ⟨?_, hexp.rooted w⟩)
  intro hw
  rcases hexp.reached w hw with hw | ⟨v, hv, hvw⟩
  · cases hw
  · clear hw
    induction hvw with
    | refl => exact hv
    | tail _ hw ih => exact hclosed _ ih _ hw

/-! ### The recursion with a depth counter

The search can also count the depth of a node up and compare it with a limit.  `Run` is a finite run
of that recursion, which has no other bound; `runAll_iff` says that there always is one, and that
its result is that of `visit` with the levels up to the limit. -/

mutual

/-- Exploring a node at a depth ends with a result. -/
inductive Run (succ : α → List α) (limit : Int) :
    Int → α → State α → Except (Failure α) (State α) → Prop
  | tooDeep {depth : Int} {v : α} {s : State α} :
    limit < depth → Run succ limit depth v s (.error (.tooDeep v))
  | cycle {depth : Int} {v : α} {s : State α} :
    depth ≤ limit → v ∈ s.visiting → Run succ limit depth v s (.error (.cycle v))
  | known {depth : Int} {v : α} {s : State α} :
    depth ≤ limit → v ∉ s.visiting → v ∈ s.visited → Run succ limit depth v s (.ok s)
  | failed {depth : Int} {v : α} {s : State α} {e : Failure α} :
    depth ≤ limit → v ∉ s.visiting → v ∉ s.visited →
      RunAll succ limit (depth + 1) (succ v) ⟨s.visited, v :: s.visiting⟩ (.error e) →
      Run succ limit depth v s (.error e)
  | explored {depth : Int} {v : α} {s s' : State α} :
    depth ≤ limit → v ∉ s.visiting → v ∉ s.visited →
      RunAll succ limit (depth + 1) (succ v) ⟨s.visited, v :: s.visiting⟩ (.ok s') →
      Run succ limit depth v s (.ok ⟨v :: s'.visited, s'.visiting.erase v⟩)

/-- Exploring nodes one after the other ends with a result. -/
inductive RunAll (succ : α → List α) (limit : Int) :
    Int → List α → State α → Except (Failure α) (State α) → Prop
  | nil {depth : Int} {s : State α} : RunAll succ limit depth [] s (.ok s)
  | failed {depth : Int} {v : α} {l : List α} {s : State α} {e : Failure α} :
    Run succ limit depth v s (.error e) → RunAll succ limit depth (v :: l) s (.error e)
  | cons {depth : Int} {v : α} {l : List α} {s s₁ : State α}
    {r : Except (Failure α) (State α)} :
    Run succ limit depth v s (.ok s₁) → RunAll succ limit depth l s₁ r →
      RunAll succ limit depth (v :: l) s r

end

def levels (limit depth : Int) : Nat := (limit + 1 - depth).toNat

theorem levels_of_lt {limit depth : Int} (h : limit < depth) : levels limit depth = 0 := by
  unfold levels
  omega

theorem levels_of_le {limit depth : Int} (h : depth ≤ limit) :
    levels limit depth = levels limit (depth + 1) + 1 := by
  unfold levels
  omega

theorem visitAll_cons : visitAll succ n (v :: l) s = (visit succ n v s).bind (visitAll succ n l) :=
  List.foldlM_cons

/-- A list has a run if its nodes have. -/
theorem runAll_visitAll {limit depth : Int}
    (hrun : ∀ v s, Run succ limit depth v s (visit succ n v s)) (l : List α) :
    ∀ s, RunAll succ limit depth l s (visitAll succ n l s) := by
  induction l with
  | nil => exact fun s => .nil
  | cons v l ih =>
    intro s
    have hv := hrun v s
    rw [visitAll_cons]
    cases h : visit succ n v s with
    | error e =>
      rw [h] at hv
      exact .failed hv
    | ok s₁ =>
      rw [h] at hv
      exact .cons hv (ih s₁)

/-- The induction is on the levels that are left. -/
theorem run_visit {limit : Int} (n : Nat) : ∀ {depth : Int}, levels limit depth = n →
    ∀ (v : α) (s : State α), Run succ limit depth v s (visit succ n v s) := by
  induction n with
  | zero =>
    intro depth hn v s
    rw [visit]
    refine .tooDeep ?_
    unfold levels at hn
    omega
  | succ n ih =>
    intro depth hn v s
    have hle : depth ≤ limit := by
      unfold levels at hn
      omega
    have hnext : levels limit (depth + 1) = n := by
      have := levels_of_le hle
      omega
    have hbelow := runAll_visitAll (ih hnext) (succ v) ⟨s.visited, v :: s.visiting⟩
    rw [visit]
    split_ifs with hvisiting hvisited
    · exact .cycle hle hvisiting
    · exact .known hle hvisiting hvisited
    · change Run succ limit depth v s ((visitAll succ n (succ v) _).bind _)
      cases h : visitAll succ n (succ v) ⟨s.visited, v :: s.visiting⟩ with
      | error e =>
        rw [h] at hbelow
        exact .failed hle hvisiting hvisited hbelow
      | ok s' =>
        rw [h] at hbelow
        exact .explored hle hvisiting hvisited hbelow

mutual

theorem Run.eq {limit depth : Int} {v : α} {s : State α} {r : Except (Failure α) (State α)} :
    Run succ limit depth v s r → r = visit succ (levels limit depth) v s
  | .tooDeep hlt => by rw [levels_of_lt hlt, visit]
  | .cycle hle hvisiting => by rw [levels_of_le hle, visit, if_pos hvisiting]
  | .known hle hvisiting hvisited => by
    rw [levels_of_le hle, visit, if_neg hvisiting, if_pos hvisited]
  | .failed hle hvisiting hvisited hbelow => by
    rw [levels_of_le hle, visit, if_neg hvisiting, if_neg hvisited]
    change _ = (visitAll succ _ (succ v) _).bind _
    rw [← hbelow.eq]
    rfl
  | .explored hle hvisiting hvisited hbelow => by
    rw [levels_of_le hle, visit, if_neg hvisiting, if_neg hvisited]
    change _ = (visitAll succ _ (succ v) _).bind _
    rw [← hbelow.eq]
    rfl

theorem RunAll.eq {limit depth : Int} {l : List α} {s : State α}
    {r : Except (Failure α) (State α)} :
    RunAll succ limit depth l s r → r = visitAll succ (levels limit depth) l s
  | .nil => rfl
  | .failed hv => by
    rw [visitAll_cons, ← hv.eq]
    rfl
  | .cons hv hl => by
    rw [visitAll_cons, ← hv.eq, hl.eq]
    rfl

end

theorem runAll_iff {limit depth : Int} {r : Except (Failure α) (State α)} :
    RunAll succ limit depth l s r ↔ r = visitAll succ (levels limit depth) l s := by
  constructor
  · exact RunAll.eq
  · rintro rfl
    exact runAll_visitAll (run_visit _ rfl) l s

end FeatureFlags.Dfs
