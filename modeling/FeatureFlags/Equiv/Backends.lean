import FeatureFlags.Backends
import FeatureFlags.Lib.Versioned
import Mathlib.Data.Set.Function
import Mathlib.Logic.Function.Basic

/-!
# The backends are one register for each tenant

* `Registers`: what a backend is for.  A tenant without a document has revision 0, and
  `CompareAndSwap` succeeds exactly when the revision is the expected one.
* `Postgres.Table.registers`: the registers that a table holds; `Postgres.exec_registers`: a call on
  the table is the call on the registers.
* `Valkey.Stores`: the same for the hashes of a server, with keys that do not collide.
* `backends_are_registers`: both backends answer as the registers do, for what PostgreSQL can store.
-/

namespace FeatureFlags

open Go Lib

/-- A document for each tenant. -/
abbrev Registers := Bytes → Versioned Bytes

/-- A call on the registers. -/
def Registers.exec (registers : Registers) (request : BackendRequest) :
    Except GoError BackendAnswer × Registers :=
  match request.call with
  | .load tenant =>
    (.ok (.loaded ((registers tenant).document.getD []) (registers tenant).revision
      (registers tenant).document.isSome), registers)
  | .compareAndSwap tenant expectedRevision data =>
    match (registers tenant).swap expectedRevision (data.getD []) with
    | some version => (.ok .swapped, Function.update registers tenant version)
    | none => (.error (.sentinel .storageConflict), registers)

/-- The call meets no error on its way. -/
def BackendRequest.Undisturbed (request : BackendRequest) : Prop :=
  request.ctx.err = none ∧ request.fault = none

/-- What PostgreSQL takes: a tenant that is a `TEXT`, and a document that is not `NULL`. -/
def BackendCall.Storable : BackendCall → Prop
  | .load tenant => Postgres.IsText tenant
  | .compareAndSwap tenant _ data => Postgres.IsText tenant ∧ data ≠ none

instance : DecidablePred BackendCall.Storable
  | .load _ => inferInstanceAs (Decidable (Postgres.IsText _))
  | .compareAndSwap _ _ _ => inferInstanceAs (Decidable (_ ∧ _))

/-! ### PostgreSQL -/

namespace Postgres

variable {table : Table} {tenant data : Bytes} {revision : Nat}

def Table.rowsOf (table : Table) (tenant : Bytes) : List Row :=
  table.rows.filter fun row => row.tenant = tenant

/-- The primary key allows one row. -/
theorem Table.rowsOf_cases (table : Table) (tenant : Bytes) :
    table.rowsOf tenant = [] ∨ ∃ row, table.rowsOf tenant = [row] ∧ row.tenant = tenant ∧
      0 < row.revision := by
  have hall : ∀ row ∈ table.rowsOf tenant, row.tenant = tenant ∧ 0 < row.revision := by
    intro row hrow
    obtain ⟨hmem, htenant⟩ := List.mem_filter.mp hrow
    exact ⟨of_decide_eq_true htenant, table.check row hmem⟩
  have hnodup : ((table.rowsOf tenant).map Row.tenant).Nodup :=
    table.primaryKey.sublist (List.filter_sublist.map _)
  match h : table.rowsOf tenant with
  | [] => exact .inl rfl
  | [row] =>
    rw [h] at hall
    exact .inr ⟨row, rfl, hall row List.mem_cons_self⟩
  | row :: row' :: rest =>
    -- two rows would have the same key
    rw [h] at hall hnodup
    have hrow := (hall row (by simp)).1
    have hrow' := (hall row' (by simp)).1
    simp [hrow, hrow'] at hnodup

/-- The register that the rows of a tenant are. -/
def versionOf : List Row → Versioned Bytes
  | [] => .missing
  | row :: _ => ⟨some row.document, row.revision⟩

/-- The registers that a table holds. -/
def Table.registers (table : Table) : Registers := fun tenant => versionOf (table.rowsOf tenant)

theorem registers_of_absent (h : table.rowsOf tenant = []) : table.registers tenant = .missing := by
  rw [Table.registers, h]
  rfl

theorem registers_of_row {row : Row} (h : table.rowsOf tenant = [row]) :
    table.registers tenant = ⟨some row.document, row.revision⟩ := by
  rw [Table.registers, h]
  rfl

theorem mem_tenants_iff : tenant ∈ table.rows.map Row.tenant ↔ table.rowsOf tenant ≠ [] := by
  unfold Table.rowsOf
  rw [Ne, List.filter_eq_nil_iff]
  simp

theorem insert_of_present (text : IsText tenant) (h : table.rowsOf tenant ≠ []) :
    table.insert tenant data text = (0, table) :=
  dif_pos (mem_tenants_iff.mpr h)

theorem insert_of_absent (text : IsText tenant) (h : table.rowsOf tenant = []) :
    (table.insert tenant data text).1 = 1 ∧
      (table.insert tenant data text).2.registers =
        Function.update table.registers tenant ⟨some data, 1⟩ := by
  have hinsert : tenant ∉ table.rows.map Row.tenant := fun hmem => mem_tenants_iff.mp hmem h
  unfold Table.insert
  rw [dif_neg hinsert]
  refine ⟨rfl, funext fun tenant' => ?_⟩
  by_cases htenant : tenant' = tenant
  · subst htenant
    rw [Function.update_self]
    simp [Table.registers, Table.rowsOf, versionOf]
  · rw [Function.update_of_ne htenant]
    simp [Table.registers, Table.rowsOf, Ne.symm htenant]

/-- An update counts the rows of its tenant only. -/
theorem update_affected :
    (table.update tenant revision data).1 =
      (table.rowsOf tenant).countP fun row => row.revision = revision := by
  unfold Table.update Table.rowsOf
  rw [List.countP_filter]
  refine List.countP_congr fun row _ => ?_
  simp [Row.Matches, and_comm]

theorem rowsOf_update (tenant' : Bytes) :
    (table.update tenant revision data).2.rowsOf tenant' =
      (table.rowsOf tenant').map (Row.bump tenant revision data) := by
  show (table.rows.map (Row.bump tenant revision data)).filter (fun row => row.tenant = tenant') = _
  rw [List.filter_map]
  unfold Table.rowsOf
  refine congrArg _ (List.filter_congr fun row _ => ?_)
  rw [Function.comp_apply, Row.bump_tenant]

theorem bump_of_ne {row : Row} (h : ¬ row.Matches tenant revision) :
    row.bump tenant revision data = row :=
  if_neg h

theorem registers_update_of_ne {tenant' : Bytes} (h : tenant' ≠ tenant) :
    (table.update tenant revision data).2.registers tenant' = table.registers tenant' := by
  unfold Table.registers
  rw [rowsOf_update]
  rcases table.rowsOf_cases tenant' with hrows | ⟨row, hrows, htenant, -⟩
  · rw [hrows, List.map_nil]
  · rw [hrows, List.map_singleton, bump_of_ne fun hmatches => h (htenant ▸ hmatches.1)]

/-- What a call of `CompareAndSwap` for an existing document does. -/
theorem update_eq (hrevision : revision ≠ 0) :
    match (table.registers tenant).swap revision data with
    | some version => (table.update tenant revision data).1 = 1 ∧
        (table.update tenant revision data).2.registers =
          Function.update table.registers tenant version
    | none => (table.update tenant revision data).1 = 0 ∧
        (table.update tenant revision data).2.registers = table.registers := by
  rcases table.rowsOf_cases tenant with hrows | ⟨row, hrows, htenant, -⟩
  · -- without a row, the revision is 0 and is not the expected one
    rw [registers_of_absent hrows, Versioned.swap_of_ne (Ne.symm hrevision)]
    refine ⟨by rw [update_affected, hrows]; rfl, funext fun tenant' => ?_⟩
    by_cases h : tenant' = tenant
    · rw [h, Table.registers, rowsOf_update, Table.registers, hrows, List.map_nil]
    · exact registers_update_of_ne h
  · have haffected : (table.update tenant revision data).1 =
        if row.revision = revision then 1 else 0 := by
      rw [update_affected, hrows]
      simp [List.countP_cons]
    have hafter : (table.update tenant revision data).2.registers tenant =
        versionOf [row.bump tenant revision data] := by
      rw [Table.registers, rowsOf_update, hrows, List.map_singleton]
    by_cases hmatch : row.revision = revision
    · rw [registers_of_row hrows, Versioned.swap_of_eq hmatch]
      refine ⟨by rw [haffected, if_pos hmatch], funext fun tenant' => ?_⟩
      by_cases h : tenant' = tenant
      · rw [h, Function.update_self, hafter, Row.bump, if_pos ⟨htenant, hmatch⟩]
        rfl
      · rw [Function.update_of_ne h, registers_update_of_ne h]
    · rw [registers_of_row hrows, Versioned.swap_of_ne hmatch]
      refine ⟨by rw [haffected, if_neg hmatch], funext fun tenant' => ?_⟩
      by_cases h : tenant' = tenant
      · rw [h, hafter, bump_of_ne fun hmatches => hmatch hmatches.2, registers_of_row hrows]
        rfl
      · exact registers_update_of_ne h

/-- The same where no document is expected. -/
theorem insert_eq (text : IsText tenant) :
    match (table.registers tenant).swap 0 data with
    | some version => (table.insert tenant data text).1 = 1 ∧
        (table.insert tenant data text).2.registers =
          Function.update table.registers tenant version
    | none => (table.insert tenant data text).1 = 0 ∧
        (table.insert tenant data text).2.registers = table.registers := by
  rcases table.rowsOf_cases tenant with hrows | ⟨row, hrows, -, hpos⟩
  · rw [registers_of_absent hrows]
    exact insert_of_absent text hrows
  · -- the revision of a row is positive
    have hrow : table.rowsOf tenant ≠ [] := by
      rw [hrows]
      exact List.cons_ne_nil _ _
    rw [registers_of_row hrows, Versioned.swap_of_ne (Nat.ne_of_gt hpos),
      insert_of_present text hrow]
    exact ⟨rfl, rfl⟩

/-- The statement that `CompareAndSwap` sends is the swap of the register. -/
theorem statement_eq (table : Table) (text : IsText tenant) (expected : Nat) (data : Bytes) :
    let result :=
      if expected = 0 then table.insert tenant data text else table.update tenant expected data
    match (table.registers tenant).swap expected data with
    | some version => result.1 = 1 ∧
        result.2.registers = Function.update table.registers tenant version
    | none => result.1 = 0 ∧ result.2.registers = table.registers := by
  by_cases hexpected : expected = 0
  · subst hexpected
    exact insert_eq text
  · simp only [if_neg hexpected]
    exact update_eq hexpected

theorem select_eq : table.select tenant =
    (table.rowsOf tenant).map fun row => (row.document, row.revision) := rfl

/-- A call on the table is the call on the registers that the table holds. -/
theorem exec_registers (table : Table) {request : BackendRequest} (h : request.Undisturbed)
    (hstorable : request.call.Storable) :
    (exec table request).1 = (table.registers.exec request).1 ∧
      (exec table request).2.registers = (table.registers.exec request).2 := by
  obtain ⟨call, ctx, fault⟩ := request
  obtain ⟨hctx, hfault⟩ := h
  dsimp only at hctx hfault
  unfold exec Registers.exec
  cases call with
  | load tenant =>
    have htext : IsText tenant := hstorable
    refine ⟨?_, rfl⟩
    dsimp only
    unfold load Table.registers
    simp only [hctx, hfault, select_eq, if_pos htext]
    cases table.rowsOf tenant <;> rfl
  | compareAndSwap tenant expected data =>
    obtain ⟨htext, hdata⟩ : IsText tenant ∧ data ≠ none := hstorable
    obtain ⟨data, rfl⟩ := Option.ne_none_iff_exists'.mp hdata
    have hstatement := statement_eq table htext expected data
    dsimp only
    unfold compareAndSwap Table.execute
    simp only [hctx, hfault, dif_pos htext, Option.getD_some]
    cases hswap : (table.registers tenant).swap expected data with
    | some version | none =>
      rw [hswap] at hstatement
      obtain ⟨haffected, hafter⟩ := hstatement
      rw [haffected]
      exact ⟨rfl, hafter⟩

end Postgres

/-! ### Valkey -/

namespace Valkey

section Hashes

variable {space : Keyspace} {key field₁ value₁ field₂ value₂ : Bytes}

theorem hget_hset_of_ne {key' : Bytes} (h : key' ≠ key) (field : Bytes) :
    hget (hset space key field₁ value₁ field₂ value₂) key' field = hget space key' field := by
  unfold hget hset
  rw [Std.ExtTreeMap.getD_insert, if_neg]
  simpa using Ne.symm h

theorem hget_hset_self (field : Bytes) :
    hget (hset space key field₁ value₁ field₂ value₂) key field =
      if field₂ = field then some value₂
      else if field₁ = field then some value₁ else hget space key field := by
  unfold hget hset
  rw [Std.ExtTreeMap.getD_insert_self, GoMap.lookup_insert, GoMap.lookup_insert]

end Hashes

/-! #### Numbers -/

theorem toDouble_eq {n : Nat} (h : n ≤ 2 ^ 53) : toDouble n = n := by
  rcases Nat.lt_or_eq_of_le h with hlt | rfl
  · exact if_pos hlt
  · decide +kernel

theorem tonumber_decimal {n : Nat} (h : n ≤ 2 ^ 53) : tonumber (decimal n) = some n := by
  rw [tonumber, digitsValue_decimal, Option.map_some, toDouble_eq h]

/-! #### Hashes as registers -/

/-- The hash at a key holds the register. -/
def Holds (space : Keyspace) (key : Bytes) (version : Versioned Bytes) : Prop :=
  (hget space key (str "revision") = none ∧ version = .missing) ∨
    ∃ data, hget space key (str "revision") = some (decimal version.revision) ∧
      hget space key (str "document") = some data ∧ version.document = some data ∧
      0 < version.revision ∧ version.revision ≤ 2 ^ 53

variable {space : Keyspace} {key data : Bytes} {version : Versioned Bytes}

theorem decodeLoaded_of_holds (h : Holds space key version) :
    decodeLoaded (loadScript key space) =
      .ok (.loaded (version.document.getD []) version.revision version.document.isSome) := by
  unfold loadScript
  rcases h with ⟨hrevision, rfl⟩ | ⟨data, hrevision, hdocument, hdata, hpos, hle⟩
  · rw [hrevision]
    rfl
  · rw [hrevision]
    simp only [tonumber_decimal hle, hdocument, hdata, Message.ofHget, decodeLoaded]
    rw [if_neg (by omega)]
    rfl

theorem compareAndSwapScript_of_holds (h : Holds space key version) {expected : Nat}
    (hexpected : expected < 2 ^ 53) :
    compareAndSwapScript key (decimal expected) data space =
      match version.swap expected data with
      | some version' => (.ok (.integer 1), hset space key (str "revision")
          (decimal version'.revision) (str "document") data)
      | none => (.ok (.integer 0), space) := by
  have hnumber := tonumber_decimal hexpected.le
  have hsucc := toDouble_eq (Nat.succ_le_of_lt hexpected)
  unfold compareAndSwapScript
  rcases h with ⟨hrevision, rfl⟩ | ⟨_, hrevision, -, -, hpos, hle⟩
  · simp only [hrevision, hnumber, Option.some.injEq, ne_eq]
    by_cases hzero : expected = 0
    · rw [if_neg (not_not.mpr hzero), Versioned.swap_of_eq hzero.symm]
      rfl
    · rw [if_pos hzero, Versioned.swap_of_ne (Ne.symm hzero)]
  · simp only [hrevision, hnumber, tonumber_decimal hle, Option.some.injEq, ne_eq]
    by_cases heq : version.revision = expected
    · rw [if_neg (not_not.mpr heq), Versioned.swap_of_eq heq, hsucc, heq]
    · rw [if_pos heq, Versioned.swap_of_ne heq]

theorem holds_hset {expected : Nat} (hexpected : expected < 2 ^ 53) :
    Holds (hset space key (str "revision") (decimal (expected + 1)) (str "document") data) key
      ⟨some data, expected + 1⟩ := by
  refine .inr ⟨data, ?_, ?_, rfl, Nat.succ_pos expected, Nat.succ_le_of_lt hexpected⟩
  · rw [hget_hset_self, if_neg (by decide), if_pos rfl]
  · rw [hget_hset_self, if_pos rfl]

theorem Holds.hset_of_ne {key' revision : Bytes} (h : Holds space key' version) (hne : key' ≠ key) :
    Holds (hset space key (str "revision") revision (str "document") data) key' version := by
  unfold Holds
  rw [hget_hset_of_ne hne, hget_hset_of_ne hne]
  exact h

/-! #### Keys -/

theorem hexDigit_injOn : ∀ m < 16, ∀ n < 16, Json.hexDigit m = Json.hexDigit n → m = n := by
  decide

theorem hexEncode_injective : Function.Injective hexEncode := by
  intro a
  induction a with
  | nil =>
    intro b h
    cases b with
    | nil => rfl
    | cons c b => simp [hexEncode] at h
  | cons c a ih =>
    intro b h
    cases b with
    | nil => simp [hexEncode] at h
    | cons d b =>
      simp only [hexEncode, List.flatMap_cons, List.cons_append, List.nil_append,
        List.cons.injEq] at h
      obtain ⟨hhigh, hlow, hrest⟩ := h
      have hc := c.toNat_lt
      have hd := d.toNat_lt
      have hdiv := hexDigit_injOn _ (by omega) _ (by omega) hhigh
      have hmod := hexDigit_injOn _ (by omega) _ (by omega) hlow
      have hbyte : c = d := UInt8.toNat_inj.mp (by omega)
      rw [hbyte, ih hrest]

variable [Runtime] {keyspace : Bytes}

theorem tenantKey_injOn {tenants : Set Bytes} (h : Set.InjOn Runtime.sha256 tenants) :
    Set.InjOn (tenantKey keyspace) tenants := by
  intro a ha b hb hkey
  exact h ha hb (hexEncode_injective (List.append_cancel_left hkey))

/-- The server holds the registers of these tenants. -/
def Stores (keyspace : Bytes) (tenants : Set Bytes) (space : Keyspace) (registers : Registers) :
    Prop :=
  ∀ tenant ∈ tenants, Holds space (tenantKey keyspace tenant) (registers tenant)

/-- A call on the server is the call on the registers that the server holds. -/
theorem exec_stores {tenants : Set Bytes} (hinj : Set.InjOn Runtime.sha256 tenants)
    {registers : Registers} {request : BackendRequest} (h : request.Undisturbed)
    (htenant : request.call.tenant ∈ tenants)
    (hexpected : ∀ tenant expected data, request.call = .compareAndSwap tenant expected data →
      expected < 2 ^ 53) (hstores : Stores keyspace tenants space registers) :
    (exec keyspace space request).1 = (registers.exec request).1 ∧
      Stores keyspace tenants (exec keyspace space request).2 (registers.exec request).2 := by
  obtain ⟨call, ctx, fault⟩ := request
  obtain ⟨hctx, hfault⟩ := h
  dsimp only at hctx hfault htenant hexpected
  unfold exec Registers.exec
  cases call with
  | load tenant =>
    refine ⟨?_, hstores⟩
    dsimp only
    unfold load
    simp only [hctx, hfault, decodeLoaded_of_holds (hstores tenant htenant)]
  | compareAndSwap tenant expected data =>
    have hbound := hexpected tenant expected data rfl
    dsimp only
    unfold compareAndSwap
    simp only [hctx, hfault, compareAndSwapScript_of_holds (hstores tenant htenant) hbound]
    cases hswap : (registers tenant).swap expected (data.getD []) with
    | none => exact ⟨rfl, hstores⟩
    | some version =>
      obtain ⟨rfl, rfl⟩ := Versioned.swap_eq_some_iff.mp hswap
      refine ⟨rfl, ?_⟩
      show Stores keyspace tenants
        (hset space _ _ (decimal ((registers tenant).revision + 1)) _ (data.getD []))
        (Function.update registers tenant _)
      intro tenant' htenant'
      by_cases hsame : tenant' = tenant
      · rw [hsame, Function.update_self]
        exact holds_hset hbound
      · -- another tenant has another key
        have hkey : tenantKey keyspace tenant' ≠ tenantKey keyspace tenant := fun hkey =>
          hsame (tenantKey_injOn hinj htenant' htenant hkey)
        rw [Function.update_of_ne hsame]
        exact (hstores tenant' htenant').hset_of_ne hkey

theorem stores_empty (tenants : Set Bytes) : Stores keyspace tenants ∅ fun _ => .missing :=
  fun tenant _ => .inl ⟨by simp [hget], rfl⟩

end Valkey

/-- **Both backends answer as one register for each tenant**, for tenants and documents that
PostgreSQL can store.  A tenant without a document has revision 0, and `CompareAndSwap` succeeds
exactly when the revision is the expected one, which then grows by one. -/
theorem backends_are_registers [Runtime] (keyspace : Bytes) {requests : List BackendRequest}
    (hundisturbed : ∀ request ∈ requests, request.Undisturbed)
    (hstorable : ∀ request ∈ requests, request.call.Storable)
    (hinj : Set.InjOn Runtime.sha256 {tenant | ∃ request ∈ requests, request.call.tenant = tenant})
    (hexpected : ∀ request ∈ requests, ∀ tenant expected data,
      request.call = .compareAndSwap tenant expected data → expected < 2 ^ 53) :
    answers Postgres.exec .empty requests = answers Registers.exec (fun _ => .missing) requests ∧
      answers (Valkey.exec (Valkey.newBackend keyspace)) ∅ requests =
        answers Registers.exec (fun _ => .missing) requests := by
  constructor
  · refine answers_eq_of_simulation (fun table registers => table.registers = registers)
      (· ∈ requests) (fun table registers request hrequest hrelated => ?_) rfl fun _ h => h
    subst hrelated
    exact Postgres.exec_registers table (hundisturbed request hrequest)
      (hstorable request hrequest)
  · let tenants := {tenant | ∃ request ∈ requests, request.call.tenant = tenant}
    refine answers_eq_of_simulation (Valkey.Stores (Valkey.newBackend keyspace) tenants)
      (· ∈ requests) (fun space registers request hrequest hrelated => ?_)
      (Valkey.stores_empty tenants) fun _ h => h
    exact Valkey.exec_stores hinj (hundisturbed request hrequest) ⟨request, hrequest, rfl⟩
      (hexpected request hrequest) hrelated

/-- Two writers of one tenant race to create its document, and another tenant is untouched. -/
def createRace : List BackendRequest :=
  [⟨.load (str "t"), .background, none⟩,
    ⟨.compareAndSwap (str "t") 0 (some (str "a")), .background, none⟩,
    ⟨.compareAndSwap (str "t") 0 (some (str "b")), .background, none⟩,
    ⟨.compareAndSwap (str "t") 1 (some (str "b")), .background, none⟩,
    ⟨.compareAndSwap (str "u") 1 (some (str "c")), .background, none⟩,
    ⟨.load (str "t"), .background, none⟩, ⟨.load (str "u"), .background, none⟩]

theorem backends_are_registers_race :
    letI := unaryRuntime
    answers (Valkey.exec (Valkey.newBackend [])) ∅ createRace =
        answers Postgres.exec .empty createRace ∧
      answers Registers.exec (fun _ => .missing) createRace =
        [.ok (.loaded [] 0 false), .ok .swapped, .error (.sentinel .storageConflict), .ok .swapped,
          .error (.sentinel .storageConflict), .ok (.loaded (str "b") 2 true),
          .ok (.loaded [] 0 false)] := by
  let _ := unaryRuntime
  have hall : ∀ request ∈ createRace, request.Undisturbed ∧ ∀ tenant expected data,
      request.call = .compareAndSwap tenant expected data → expected < 2 ^ 53 := by
    intro request hrequest
    simp only [createRace, List.mem_cons, List.not_mem_nil, or_false] at hrequest
    rcases hrequest with rfl | rfl | rfl | rfl | rfl | rfl | rfl <;>
      refine ⟨⟨rfl, rfl⟩, fun tenant expected data h => ?_⟩ <;> cases h <;> decide
  have hanswers := backends_are_registers [] (fun request hrequest => (hall request hrequest).1)
    (by decide +kernel) Function.injective_id.injOn
    fun request hrequest => (hall request hrequest).2
  exact ⟨hanswers.2.trans hanswers.1.symm, by decide +kernel⟩

/-- A tenant with a NUL byte, and a nil document: PostgreSQL refuses the statement, Valkey stores
the document. -/
theorem backends_differ :
    letI := unaryRuntime
    (answers Postgres.exec .empty [⟨.compareAndSwap [0] 0 (some (str "a")), .background, none⟩] =
        [.error (.wrapf "feature flags postgres compare and swap: %w" [] (.external 0))] ∧
      answers (Valkey.exec (Valkey.newBackend [])) ∅
        [⟨.compareAndSwap [0] 0 (some (str "a")), .background, none⟩] = [.ok .swapped]) ∧
    answers Postgres.exec .empty [⟨.compareAndSwap (str "t") 0 none, .background, none⟩] =
        [.error (.wrapf "feature flags postgres compare and swap: %w" [] (.external 0))] ∧
      answers (Valkey.exec (Valkey.newBackend [])) ∅
        [⟨.compareAndSwap (str "t") 0 none, .background, none⟩] = [.ok .swapped] := by
  decide +kernel

end FeatureFlags
