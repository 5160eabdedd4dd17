import FeatureFlags.Equiv.Staleness
import Mathlib.Data.List.MinMax
import Mathlib.Data.Set.Card

/-!
# What the cache holds

* `evictOldestLocked_eq`: the two loops over the entries find the same victim in every order, the
  least entry by fetch time and tenant.
* `CacheState.Tracked`: a tenant has a refresh state only as long as a refresh holds it.
* `cache_structure`: what holds in every state of a run over any provider.
-/

namespace FeatureFlags

open Go Lib

variable {κ : Type}

/-! ### The victim -/

section Loops

variable {α : Type} {r : α → α → Prop} [DecidableRel r] {l : List α} {m : α}

theorem mem_of_foldl_argAux {o : Option α} (h : l.foldl (List.argAux r) o = some m) :
    m ∈ l ∨ o = some m := by
  induction l generalizing o with
  | nil => exact .inr h
  | cons a l ih =>
    rcases ih h with hmem | haux
    · exact .inl (List.mem_cons_of_mem _ hmem)
    · unfold List.argAux at haux
      cases o with
      | none =>
        cases haux
        exact .inl List.mem_cons_self
      | some c =>
        dsimp only at haux
        split_ifs at haux
        · cases haux
          exact .inl List.mem_cons_self
        · exact .inr haux

/-- A loop that keeps the least element finds it in whatever order it runs. -/
theorem foldl_argAux_eq_some (irrefl : Std.Irrefl r) (trans : IsTrans α r)
    (connected : ∀ a b, ¬ r a b → ¬ r b a → a = b) :
    l.foldl (List.argAux r) none = some m ↔ m ∈ l ∧ ∀ a ∈ l, ¬ r a m := by
  have hspec : ∀ m, l.foldl (List.argAux r) none = some m → m ∈ l ∧ ∀ a ∈ l, ¬ r a m := by
    intro m h
    refine ⟨(mem_of_foldl_argAux h).resolve_right nofun, fun a ha => ?_⟩
    exact List.not_of_mem_foldl_argAux r irrefl trans ha h
  refine ⟨hspec m, fun ⟨hmem, hleast⟩ => ?_⟩
  cases h : l.foldl (List.argAux r) none with
  | none =>
    rw [List.foldl_argAux_eq_none] at h
    rw [h.1] at hmem
    cases hmem
  | some m' =>
    obtain ⟨hmem', hleast'⟩ := hspec m' h
    rw [connected m' m (hleast m' hmem') (hleast' m hmem)]

end Loops

section Victim

variable {entries : GoMap (CachedSnapshot κ)} {l l' : List (Bytes × CachedSnapshot κ)}
  {tenant : Bytes} {time : Time}

theorem Go.Time.before_or_eq {t u : Time} (h : ¬ u.before t) : t.before u ∨ t = u := by
  rcases lt_or_eq_of_le (not_lt.mp h) with hlt | heq
  · exact .inl hlt
  · exact .inr (congrArg Time.mk heq)

theorem oldestTime_eq (l : List (Bytes × CachedSnapshot κ)) :
    oldestTime l = (l.map fun x => x.2.fetched).foldl (List.argAux Time.before) none := by
  rw [List.foldl_map, oldestTime]
  congr 1
  funext oldest x
  cases oldest <;> rfl

theorem oldestTime_eq_some :
    oldestTime l = some time ↔
      time ∈ l.map (fun x => x.2.fetched) ∧ ∀ x ∈ l, ¬ x.2.fetched.before time := by
  have hconnected : ∀ a b : Time, ¬ a.before b → ¬ b.before a → a = b := fun a b hab hba =>
    (Time.before_or_eq hba).resolve_left hab
  rw [oldestTime_eq, foldl_argAux_eq_some (r := Time.before) ⟨fun t => lt_irrefl t.nanos⟩
    ⟨fun a b c hab hbc => lt_trans (b := b.nanos) hab hbc⟩ hconnected, List.forall_mem_map]

/-- The second loop of `evictOldestLocked`, for the time that the first one has found. -/
def oldestTenantAt (time : Option Time) (entries : List (Bytes × CachedSnapshot κ)) :
    Option Bytes :=
  entries.foldl (fun oldest x =>
    if some x.2.fetched = time then
      match oldest with
      | some tenant => if compare x.1 tenant = .lt then some x.1 else some tenant
      | none => some x.1
    else oldest) none

theorem oldestTenantAt_eq (time : Time) (l : List (Bytes × CachedSnapshot κ)) :
    oldestTenantAt (some time) l =
      ((l.filter fun x => x.2.fetched = time).map Prod.fst).foldl
        (List.argAux fun a b => compare a b = .lt) none := by
  rw [List.foldl_map, List.foldl_filter, oldestTenantAt]
  congr 1
  funext oldest x
  simp only [Option.some.injEq, decide_eq_true_eq]
  split_ifs
  · cases oldest <;> rfl
  · rfl

theorem oldestTenantAt_eq_some :
    oldestTenantAt (some time) l = some tenant ↔
      (∃ x ∈ l, x.2.fetched = time ∧ x.1 = tenant) ∧
        ∀ x ∈ l, x.2.fetched = time → compare x.1 tenant ≠ .lt := by
  have hirrefl : ∀ a : Bytes, ¬ compare a a = .lt := fun a h => by
    rw [Std.compare_self] at h
    cases h
  have hconnected : ∀ a b : Bytes, ¬ compare a b = .lt → ¬ compare b a = .lt → a = b := by
    intro a b hab hba
    have hswap : compare b a = (compare a b).swap := Std.OrientedCmp.eq_swap
    rw [hswap] at hba
    cases h : compare a b with
    | lt => exact absurd h hab
    | eq => exact Std.compare_eq_iff_eq.mp h
    | gt =>
      rw [h] at hba
      exact absurd rfl hba
  rw [oldestTenantAt_eq, foldl_argAux_eq_some (r := fun a b : Bytes => compare a b = .lt) ⟨hirrefl⟩
    ⟨fun a b c hab hbc => Std.TransCmp.lt_trans hab hbc⟩ hconnected, List.forall_mem_map]
  simp only [List.mem_map, List.mem_filter, decide_eq_true_eq, and_imp, and_assoc, ne_eq]

theorem oldestTenantAt_none : oldestTenantAt none l = none := by
  unfold oldestTenantAt
  induction l with
  | nil => rfl
  | cons x l ih => exact ih

/-- The entry that is least by fetch time and tenant. -/
def Oldest (entries : GoMap (CachedSnapshot κ)) (tenant : Bytes) : Prop :=
  ∃ e, entries[tenant]? = some e ∧ ∀ (tenant' : Bytes) (e' : CachedSnapshot κ),
    entries[tenant']? = some e' → e.fetched.before e'.fetched ∨
      e.fetched = e'.fetched ∧ compare tenant tenant' ≠ .gt

/-- `evictOldestLocked`, with the orders in which its two loops visit the entries. -/
def evictOldestLocked (first second : MapOrder) (entries : GoMap (CachedSnapshot κ)) :
    GoMap (CachedSnapshot κ) :=
  entries.erase
    ((oldestTenantAt (oldestTime (entries.range first)) (entries.range second)).getD [])

/-- The loops find the oldest entry, in every order. -/
theorem oldestTenantAt_range (first second : MapOrder) (entries : GoMap (CachedSnapshot κ)) :
    oldestTenantAt (oldestTime (entries.range first)) (entries.range second) = some tenant ↔
      Oldest entries tenant := by
  constructor
  · intro h
    cases htime : oldestTime (entries.range first) with
    | none =>
      rw [htime, oldestTenantAt_none] at h
      cases h
    | some time =>
      rw [htime, oldestTenantAt_eq_some] at h
      obtain ⟨⟨⟨_, e⟩, hmem, rfl, rfl⟩, hleast⟩ := h
      refine ⟨e, GoMap.mem_range.mp hmem, fun tenant' e' he' => ?_⟩
      have hnot : ¬ e'.fetched.before e.fetched :=
        (oldestTime_eq_some.mp htime).2 (tenant', e') (GoMap.mem_range.mpr he')
      rcases Time.before_or_eq hnot with hbefore | heq
      · exact .inl hbefore
      · refine .inr ⟨heq, fun hgt => ?_⟩
        exact hleast (tenant', e') (GoMap.mem_range.mpr he') heq.symm
          (Std.OrientedCmp.gt_iff_lt.mp hgt)
  · rintro ⟨e, he, hleast⟩
    have htime : oldestTime (entries.range first) = some e.fetched := by
      refine oldestTime_eq_some.mpr
        ⟨List.mem_map.mpr ⟨(tenant, e), GoMap.mem_range.mpr he, rfl⟩, fun x hx hbefore => ?_⟩
      rcases hleast x.1 x.2 (GoMap.mem_range.mp hx) with hlt | ⟨heq, -⟩
      · exact lt_asymm (a := e.fetched.nanos) hlt hbefore
      · exact lt_irrefl _ (heq ▸ hbefore)
    rw [htime, oldestTenantAt_eq_some]
    refine ⟨⟨(tenant, e), GoMap.mem_range.mpr he, rfl, rfl⟩, fun x hx heq hlt => ?_⟩
    rcases hleast x.1 x.2 (GoMap.mem_range.mp hx) with hbefore | ⟨-, hgt⟩
    · exact lt_irrefl _ (heq ▸ hbefore)
    · exact hgt (Std.OrientedCmp.gt_iff_lt.mpr hlt)

theorem Oldest.eq {other : Bytes} (h : Oldest entries tenant) (h' : Oldest entries other) :
    other = tenant := by
  rw [← oldestTenantAt_range .sorted .sorted] at h h'
  exact Option.some.inj (h'.symm.trans h)

/-- The victim does not depend on the orders of the loops. -/
theorem evictOldestLocked_eq (first second : MapOrder) (entries : GoMap (CachedSnapshot κ)) :
    evictOldestLocked first second entries = evictOldest entries := by
  have hsame : oldestTenantAt (oldestTime (entries.range first)) (entries.range second) =
      oldestTenant entries.toList := by
    apply Option.ext
    intro tenant
    rw [oldestTenantAt_range]
    exact (oldestTenantAt_range .sorted .sorted entries).symm
  rw [evictOldestLocked, hsame, evictOldest]

/-- There is a victim unless there is no entry at all. -/
theorem exists_oldest (h : 0 < entries.len) : ∃ tenant, Oldest entries tenant := by
  have hentries : entries.toList ≠ [] := by
    intro hnil
    have hsize : entries.toList.length = entries.size := Std.ExtTreeMap.length_toList
    rw [GoMap.len, ← hsize, hnil] at h
    exact absurd h (lt_irrefl 0)
  cases htime : oldestTime (entries.range .sorted) with
  | none =>
    rw [oldestTime_eq, List.foldl_argAux_eq_none, List.map_eq_nil_iff] at htime
    exact absurd htime.1 hentries
  | some time =>
    obtain ⟨x, hx, rfl⟩ := List.mem_map.mp (oldestTime_eq_some.mp htime).1
    cases htenant : oldestTenantAt (some x.2.fetched) (entries.range .sorted) with
    | none =>
      rw [oldestTenantAt_eq, List.foldl_argAux_eq_none, List.map_eq_nil_iff,
        List.filter_eq_nil_iff] at htenant
      exact absurd (decide_eq_true rfl) (htenant.1 x hx)
    | some tenant =>
      rw [← htime] at htenant
      exact ⟨tenant, (oldestTenantAt_range .sorted .sorted entries).mp htenant⟩

theorem evictOldest_eq (h : Oldest entries tenant) :
    evictOldest entries = entries.erase tenant := by
  have hfound := (oldestTenantAt_range .sorted .sorted entries).mpr h
  rw [evictOldest, show oldestTenant entries.toList = some tenant from hfound]
  rfl

end Victim

/-! ### Publishing -/

section Publishing

variable {config : CacheConfig} {tenant : Bytes} {state sequence : Nat} {e : CachedSnapshot κ}
  {s t : CacheState κ}

/-- The section of `Refresh` that publishes, with the orders of the loops of
`evictOldestLocked`. -/
def publishIn (first second : MapOrder) (config : CacheConfig) (tenant : Bytes)
    (state sequence : Nat) (entry : CachedSnapshot κ) (s : CacheState κ) : CacheState κ :=
  if mayPublish tenant state sequence s then
    let entries :=
      if tenant ∉ s.entries ∧ s.entries.len ≥ config.maxTenants then
        evictOldestLocked first second s.entries
      else s.entries
    { s with
      entries := entries.insert tenant entry
      states := Function.update s.states state { s.states state with published := sequence } }
  else s

theorem publishIn_eq (first second : MapOrder) (config : CacheConfig) (tenant : Bytes)
    (state sequence : Nat) (e : CachedSnapshot κ) (s : CacheState κ) :
    publishIn first second config tenant state sequence e s =
      publish config tenant state sequence e s := by
  simp only [publishIn, publish, evictOldestLocked_eq]

/-- What publishing does to the entries. -/
structure EntriesPublished (config : CacheConfig) (tenant : Bytes) (e : CachedSnapshot κ)
    (before after : GoMap (CachedSnapshot κ)) : Prop where
  present : tenant ∈ before → after = before.insert tenant e
  room : before.len < config.maxTenants → after = before.insert tenant e
  full : tenant ∉ before → config.maxTenants ≤ before.len →
    ∃ victim, (∀ other, Oldest before other ↔ other = victim) ∧
      after = (before.erase victim).insert tenant e

theorem publish_entries (positive : 0 < config.maxTenants)
    (may : mayPublish tenant state sequence s) :
    EntriesPublished config tenant e s.entries
      (publish config tenant state sequence e s).entries := by
  rw [publish, if_pos may]
  dsimp only
  refine ⟨fun hmem => ?_, fun hroom => ?_, fun habsent hfull => ?_⟩
  · rw [if_neg fun h => h.1 hmem]
  · rw [if_neg fun h => absurd hroom (not_lt.mpr h.2)]
  · obtain ⟨victim, hvictim⟩ := exists_oldest (positive.trans_le hfull)
    refine ⟨victim, fun other => ⟨hvictim.eq, fun h => h ▸ hvictim⟩, ?_⟩
    rw [if_pos ⟨habsent, hfull⟩, evictOldest_eq hvictim]

theorem EntriesPublished.len_le {before after : GoMap (CachedSnapshot κ)}
    (h : EntriesPublished config tenant e before after) (hlen : before.len ≤ config.maxTenants) :
    after.len ≤ config.maxTenants := by
  by_cases hmem : tenant ∈ before
  · rw [h.present hmem, GoMap.len_insert_of_mem e hmem]
    exact hlen
  · by_cases hroom : before.len < config.maxTenants
    · rw [h.room hroom, GoMap.len_insert_of_not_mem e hmem]
      omega
    · obtain ⟨victim, holdest, rfl⟩ := h.full hmem (not_lt.mp hroom)
      obtain ⟨old, hold, -⟩ := (holdest victim).mpr rfl
      have habsent : tenant ∉ before.erase victim := fun hin =>
        hmem (Std.ExtTreeMap.mem_of_mem_erase hin)
      rw [GoMap.len_insert_of_not_mem e habsent, GoMap.len_erase_of_mem (GoMap.mem_of_lookup hold)]
      omega

theorem publish_len (positive : 0 < config.maxTenants) (h : s.entries.len ≤ config.maxTenants) :
    (publish config tenant state sequence e s).entries.len ≤ config.maxTenants := by
  by_cases may : mayPublish tenant state sequence s
  · exact (publish_entries positive may).len_le h
  · rw [publish, if_neg may]
    exact h

end Publishing

/-! ### Refresh states -/

namespace CacheState

variable {config : CacheConfig} {limits : Limits} {s t : CacheState κ} {tenant : Bytes} {n : Nat}

/-- The state of a tenant has a refresh that runs. -/
def Tracked (s : CacheState κ) : Prop :=
  ∀ (tenant : Bytes) (n : Nat), s.refreshes[tenant]? = some n → 0 < (s.states n).running

theorem Tracked.beginRefresh (h : s.Tracked) (ticketed : s.Ticketed) :
    (FeatureFlags.beginRefresh tenant s).2.2.Tracked := by
  rcases join_or_fresh s tenant with ⟨n, hn, hnext⟩ | hfresh
  · rw [beginRefresh_join hn hnext]
    intro tenant' m hm
    dsimp only at hm ⊢
    by_cases hmn : m = n
    · subst hmn
      rw [Function.update_self]
      exact Nat.succ_pos _
    · rw [Function.update_of_ne hmn]
      exact h tenant' m hm
  · rw [beginRefresh_fresh hfresh]
    intro tenant' m hm
    dsimp only at hm ⊢
    rw [GoMap.lookup_insert] at hm
    split_ifs at hm with htenant
    · cases hm
      rw [Function.update_self]
      exact Nat.one_pos
    · -- the states of the other tenants are older than the new one
      have hlt : m < s.allocated := ticketed.current_lt tenant' m hm
      rw [Function.update_of_ne hlt.ne]
      exact h tenant' m hm

theorem Tracked.endRefresh (h : s.Tracked) (ticketed : s.Ticketed) {id : Nat}
    (hheld : s.held id = some (tenant, n)) : (FeatureFlags.endRefresh tenant n s).Tracked := by
  intro tenant' m hm
  unfold FeatureFlags.endRefresh at hm ⊢
  dsimp only at hm ⊢
  by_cases hmn : m = n
  · subst hmn
    rw [Function.update_self]
    dsimp only
    split_ifs at hm with hlast
    · -- the state was the tenant's, and it is dropped
      rw [GoMap.lookup_erase] at hm
      split_ifs at hm with htenant
      exact absurd (ticketed.current_inj tenant' tenant m hm hlast.2) htenant
    · have hsame : tenant = tenant' := ticketed.owner tenant' tenant m id hm hheld
      rw [← hsame] at hm
      exact Nat.pos_of_ne_zero fun hzero => hlast ⟨hzero, hm⟩
  · rw [Function.update_of_ne hmn]
    refine h tenant' m ?_
    split_ifs at hm
    · rw [GoMap.lookup_erase] at hm
      split_ifs at hm
      exact hm
    · exact hm

/-- A step that leaves the running refreshes alone. -/
theorem Tracked.of_le (h : s.Tracked)
    (hrefreshes : ∀ (tenant : Bytes) (n : Nat), t.refreshes[tenant]? = some n →
      s.refreshes[tenant]? = some n)
    (hrunning : ∀ n, (t.states n).running = (s.states n).running) : t.Tracked := by
  intro tenant n hn
  rw [hrunning]
  exact h tenant n (hrefreshes tenant n hn)

theorem Tracked.publish {sequence : Nat} {e : CachedSnapshot κ} (h : s.Tracked) :
    (FeatureFlags.publish config tenant n sequence e s).Tracked := by
  refine h.of_le (fun _ _ hn => by rwa [publish_refreshes] at hn) fun m => ?_
  unfold FeatureFlags.publish
  split
  · rw [running_update, Function.update_eq_self]
  · rfl

theorem Tracked.invalidate (h : s.Tracked) : (invalidateOnSuccess tenant s).Tracked := by
  refine h.of_le (fun tenant' m hm => ?_) fun _ => rfl
  simp only [invalidateOnSuccess, GoMap.lookup_erase] at hm
  split_ifs at hm
  exact hm

theorem Tracked.clear : Tracked { s with entries := ∅, refreshes := ∅ } := by
  intro tenant' m hm
  simp at hm

variable {exec : Exec κ} {action : Action κ}

theorem Moves.tracked (h : Moves config exec s action t) (hs : s.Tracked)
    (ticketed : s.Ticketed) : t.Tracked := by
  cases h with
  | admitted waits => exact hs.beginRefresh ticketed
  | published thread => exact hs.publish
  | ended thread => exact hs.endRefresh ticketed (held_of_thread thread)
  | invalidated thread => exact hs.invalidate
  | closed thread => exact Tracked.clear
  | _ => exact hs

theorem Moves.entries_len (h : Moves config exec s action t) (positive : 0 < config.maxTenants)
    (hs : s.entries.len ≤ config.maxTenants) : t.entries.len ≤ config.maxTenants := by
  cases h with
  | admitted waits =>
    rw [enter_entries, beginRefresh_entries]
    exact hs
  | published thread => exact publish_len positive hs
  | invalidated thread => exact (GoMap.len_erase_le _ _).trans hs
  | closed thread => exact positive.le
  | _ => exact hs

/-- The invariant of the runs over any provider. -/
structure Structured (config : CacheConfig) (s : CacheState κ) : Prop where
  len_le : s.entries.len ≤ config.maxTenants
  ticketed : s.Ticketed
  tracked : s.Tracked

theorem structured_new (positive : 0 < config.maxTenants) (provider : MemoryProvider κ) :
    Structured config (CacheState.new provider) where
  len_le := positive.le
  ticketed := ticketed_new provider
  tracked := by
    intro tenant n hn
    simp [CacheState.new] at hn

theorem Structured.move (hs : Structured config s) (positive : 0 < config.maxTenants)
    (h : Moves config exec s action t) : Structured config t where
  len_le := h.entries_len positive hs.len_le
  ticketed := h.ticketed hs.ticketed
  tracked := h.tracked hs.tracked hs.ticketed

end CacheState

/-! ### Runs -/

section Runs

variable {config : CacheConfig} {limits : Limits}
  {ts : List (OverStep κ)} {s : CacheState κ}

/-- The running count is the number of holders. -/
theorem CacheState.Ticketed.encard_holders (h : s.Ticketed) {n : Nat} (hn : n < s.allocated) :
    Set.encard {id | ∃ tenant, s.held id = some (tenant, n)} = (s.states n).running := by
  obtain ⟨l, hnodup, hlen, hmem⟩ := h.counted n hn
  have hset : {id | ∃ tenant, s.held id = some (tenant, n)} = (l.toFinset : Set Nat) := by
    ext id
    rw [Set.mem_ofPred_eq, Finset.mem_coe, List.mem_toFinset, hmem]
  rw [hset, Set.encard_coe_eq_coe_finsetCard, List.toFinset_card_of_nodup hnodup, hlen]

theorem maxTenants_of_accepted {config₀ : CacheConfig} {limit : Option Int}
    (h : newCachedProvider config₀ limit = .ok config) : 0 < config.maxTenants := by
  cases limit with
  | none | some limit =>
    simp only [newCachedProvider, bind_eq_ok, rejectIf_eq_ok, pure_eq_ok] at h
    obtain ⟨-, -, -, -, -, hpositive, -, -, -, -, _, -, rfl⟩ := h
    exact not_le.mp hpositive

variable [CustomStrategy κ] [Runtime]

/-- What the cache holds: a bounded number of entries, and a refresh state for a tenant only as
long as a refresh of the tenant holds it.  A state counts its holders, also after it was
detached. -/
structure CacheStructure (config : CacheConfig) (s : CacheState κ) : Prop where
  bounded : s.entries.len ≤ config.maxTenants
  outstanding : ∀ (tenant : Bytes) (n : Nat), s.refreshes[tenant]? = some n →
    ∃ id, s.held id = some (tenant, n)
  counted : ∀ (tenant : Bytes) (n : Nat), s.refreshes[tenant]? = some n →
    (Set.encard {id | s.held id = some (tenant, n)}) = (s.states n).running
  held : ∀ (id : Nat) (tenant : Bytes) (n : Nat), s.held id = some (tenant, n) →
    0 < (s.states n).running ∧ (s.states n).running ≤ maxUint64 ∧
      (Set.encard {id | ∃ tenant, s.held id = some (tenant, n)}) = (s.states n).running
  idle : (∀ id, s.held id = none) → s.refreshes = ∅

omit [CustomStrategy κ] [Runtime] in
theorem CacheState.Structured.cacheStructure (h : s.Structured config) :
    CacheStructure config s := by
  have howner : ∀ (tenant : Bytes) (n : Nat), s.refreshes[tenant]? = some n →
      {id | s.held id = some (tenant, n)} = {id | ∃ tenant, s.held id = some (tenant, n)} := by
    intro tenant n hn
    ext id
    constructor
    · exact fun hid => ⟨tenant, hid⟩
    · rintro ⟨tenant', hid⟩
      rwa [h.ticketed.owner tenant tenant' n id hn hid] at hid
  have hcounted : ∀ (tenant : Bytes) (n : Nat), s.refreshes[tenant]? = some n →
      Set.encard {id | s.held id = some (tenant, n)} = (s.states n).running := by
    intro tenant n hn
    rw [howner tenant n hn]
    exact h.ticketed.encard_holders (h.ticketed.current_lt tenant n hn)
  have houtstanding : ∀ (tenant : Bytes) (n : Nat), s.refreshes[tenant]? = some n →
      ∃ id, s.held id = some (tenant, n) := by
    intro tenant n hn
    have hne : Set.encard {id | s.held id = some (tenant, n)} ≠ 0 := by
      rw [hcounted tenant n hn]
      exact Nat.cast_ne_zero.mpr (h.tracked tenant n hn).ne'
    exact Set.encard_ne_zero.mp hne
  refine ⟨h.len_le, houtstanding, hcounted, fun id tenant n hid => ?_, fun hidle => ?_⟩
  · have hn := h.ticketed.held_lt id tenant n hid
    have hcard := h.ticketed.encard_holders hn
    have hbounds := h.ticketed.bounded n hn
    refine ⟨?_, hbounds.1.trans hbounds.2, hcard⟩
    have hne : Set.encard {id | ∃ tenant, s.held id = some (tenant, n)} ≠ 0 :=
      Set.encard_ne_zero.mpr ⟨id, tenant, hid⟩
    rw [hcard] at hne
    exact Nat.pos_of_ne_zero (Nat.cast_ne_zero.mp hne)
  · apply Std.ExtTreeMap.ext_getElem?
    intro tenant
    cases hn : s.refreshes[tenant]? with
    | none => simp
    | some n =>
      obtain ⟨id, hid⟩ := houtstanding tenant n hn
      rw [hidle id] at hid
      cases hid

/-- A refresh is at the section that publishes, and may publish the entry that it has fetched. -/
def PublishesEntry (e : OverStep κ) (tenant : Bytes) (entry : CachedSnapshot κ) : Prop :=
  ∃ id request fallback state sequence, e.action.1 = .publish id ∧
    e.before.threads id = some ⟨request, .fetched tenant fallback state sequence entry⟩ ∧
    mayPublish tenant state sequence e.before

/-- In every run over any provider the cache keeps to its structure.  To publish evicts nobody, or
at capacity the oldest entry for a new tenant, and does so in every order of the loops over the
entries. -/
theorem cache_structure {config₀ : CacheConfig} {limit : Option Int}
    (accepted : newCachedProvider config₀ limit = .ok config) (run : OverRun config limits ts s) :
    CacheStructure config s ∧
      (∀ (k : Nat) (e : OverStep κ) (tenant : Bytes) (entry : CachedSnapshot κ),
        ts[k]? = some e → PublishesEntry e tenant entry →
          EntriesPublished config tenant entry e.before.entries e.after.entries) ∧
      ∀ (first second : MapOrder) (tenant : Bytes) (state sequence : Nat)
        (entry : CachedSnapshot κ) (u : CacheState κ),
        publishIn first second config tenant state sequence entry u =
          publish config tenant state sequence entry u := by
  have positive := maxTenants_of_accepted accepted
  refine ⟨?_, fun k e tenant entry hk hpublishes => ?_,
    fun first second tenant state sequence entry u =>
      publishIn_eq first second config tenant state sequence entry u⟩
  · exact (run.invariant (CacheState.Structured config) (CacheState.structured_new positive ∅)
      fun _ _ _ hs hstep => hs.move positive (CacheState.moves_of_stepOver hstep)).cacheStructure
  · obtain ⟨id, request, fallback, state, sequence, haction, hthread, hmay⟩ := hpublishes
    have hstep := (run.upTo hk).2
    have hafter : e.after.entries =
        (publish config tenant state sequence entry e.before).entries := by
      rw [show e.action = (.publish id, e.action.2) from Prod.ext haction rfl] at hstep
      simp only [CacheState.stepOver, CacheState.step, hthread, Option.some.injEq] at hstep
      rw [← hstep, CacheState.enter_entries]
    rw [hafter]
    exact publish_entries positive hmay

end Runs

/-- Two tenants are refreshed in a cache with room for one. -/
def evictsOne : List (Action Empty × Except Failure (Response Empty)) :=
  [(.start 0 (.refresh (str "a")) .background, .error .panic),
    (.beginRefresh 0 .background, .error .panic),
    (.fetch 0 .sorted .background .zero, .ok (.snapshot ⟨∅, ∅, str "a", defaultLimits⟩)),
    (.publish 0, .error .panic), (.endRefresh 0, .error .panic),
    (.start 1 (.refresh (str "b")) .background, .error .panic),
    (.beginRefresh 1 .background, .error .panic),
    (.fetch 1 .sorted .background .zero, .ok (.snapshot ⟨∅, ∅, str "b", defaultLimits⟩)),
    (.publish 1, .error .panic)]

/-- The second tenant takes the place of the first, and its refresh state is still there. -/
theorem cache_structure_evicts :
    letI := unaryRuntime
    ∃ (ts : List (OverStep Empty)) (s : CacheState Empty),
      OverRun smallCache defaultLimits ts s ∧ ts.map Transition.action = evictsOne ∧
      s.entries.keys = [str "b"] ∧ s.refreshes.keys = [str "b"] ∧
      CacheStructure smallCache s := by
  let _ := unaryRuntime
  obtain ⟨ts, s, run, hactions, hkeys⟩ := exists_overRun smallCache defaultLimits evictsOne
    (fun x => x.2.entries.keys = [str "b"] ∧ x.2.refreshes.keys = [str "b"]) (by decide +kernel)
  obtain ⟨hentries, hrefreshes⟩ := of_decide_eq_true hkeys
  have accepted : newCachedProvider smallCache none = .ok smallCache := by decide +kernel
  exact ⟨ts, s, run, hactions, hentries, hrefreshes, (cache_structure accepted run).1⟩

end FeatureFlags
