import FeatureFlags.Go.Decimal
import FeatureFlags.Lib.Simulation
import FeatureFlags.Memory

/-!
# The storage backends

`postgres/backend.go` and `valkey/backend.go` with `valkey/native.go`: one document for each tenant,
which is replaced by compare-and-swap on its revision.

* `Postgres`: the table of `schema.sql`, the three statements and the two methods over them.
* `Valkey`: the hashes of a server, the two Lua scripts, the transport and the two methods.

A statement or a script is one step of the server.  Revisions are unbounded, but for what Lua makes
of them: its numbers are doubles.  A document is `none` when it is a nil slice, which PostgreSQL
takes for `NULL`.
-/

namespace FeatureFlags

open Go Lib

/-! ### Calls -/

/-- A call of a `DocumentBackend`. -/
inductive BackendCall where
  | load (tenant : Bytes)
  | compareAndSwap (tenant : Bytes) (expectedRevision : Nat) (data : Option Bytes)

/-- A call, with what it meets outside: the context, and the error of the server or of the way to
it, which then does nothing. -/
structure BackendRequest where
  call : BackendCall
  ctx : Ctx
  fault : Option GoError

/-- What a call returns. -/
inductive BackendAnswer where
  | loaded (data : Bytes) (revision : Nat) (present : Bool)
  | swapped
deriving DecidableEq

def BackendCall.tenant : BackendCall → Bytes
  | .load tenant => tenant
  | .compareAndSwap tenant _ _ => tenant

/-! ### PostgreSQL -/

namespace Postgres

/-- The values of `TEXT`, in the encoding UTF-8. -/
def IsText (s : Bytes) : Prop := ValidString s ∧ 0 ∉ s

instance (s : Bytes) : Decidable (IsText s) := inferInstanceAs (Decidable (_ ∧ _))

/-- A row of `feature_flag_tenant_state`, without the time of its last update, which nothing reads.
The document is `BYTEA NOT NULL`. -/
structure Row where
  tenant : Bytes
  revision : Nat
  document : Bytes

/-- `feature_flag_tenant_state`, with the constraints of `schema.sql`. -/
structure Table where
  rows : List Row
  /-- `tenant TEXT`. -/
  text : ∀ row ∈ rows, IsText row.tenant
  /-- `PRIMARY KEY`. -/
  primaryKey : (rows.map Row.tenant).Nodup
  /-- `CHECK (revision > 0)`. -/
  check : ∀ row ∈ rows, 0 < row.revision

/-- The table after `Migrate`. -/
def Table.empty : Table where
  rows := []
  text _ h := absurd h List.not_mem_nil
  primaryKey := List.nodup_nil
  check _ h := absurd h List.not_mem_nil

/-- `SELECT document, revision FROM feature_flag_tenant_state WHERE tenant = $1`. -/
def Table.select (table : Table) (tenant : Bytes) : List (Bytes × Nat) :=
  (table.rows.filter fun row => row.tenant = tenant).map fun row => (row.document, row.revision)

/-- `INSERT INTO feature_flag_tenant_state (tenant, revision, document) VALUES ($1, 1, $2)
ON CONFLICT (tenant) DO NOTHING`, with the number of rows affected. -/
def Table.insert (table : Table) (tenant document : Bytes) (text : IsText tenant) : Nat × Table :=
  if h : tenant ∈ table.rows.map Row.tenant then (0, table)
  else
    (1, {
      rows := ⟨tenant, 1, document⟩ :: table.rows
      text := List.forall_mem_cons.mpr ⟨text, table.text⟩
      primaryKey := List.nodup_cons.mpr ⟨h, table.primaryKey⟩
      check := List.forall_mem_cons.mpr ⟨Nat.one_pos, table.check⟩ })

/-- `WHERE tenant = $1 AND revision = $2`. -/
def Row.Matches (tenant : Bytes) (revision : Nat) (row : Row) : Prop :=
  row.tenant = tenant ∧ row.revision = revision

instance (tenant : Bytes) (revision : Nat) : DecidablePred (Row.Matches tenant revision) :=
  fun _ => inferInstanceAs (Decidable (_ ∧ _))

/-- `SET revision = revision + 1, document = $3` for the rows that match. -/
def Row.bump (tenant : Bytes) (revision : Nat) (document : Bytes) (row : Row) : Row :=
  if row.Matches tenant revision then { row with revision := row.revision + 1, document } else row

theorem Row.bump_tenant (tenant : Bytes) (revision : Nat) (document : Bytes) (row : Row) :
    (row.bump tenant revision document).tenant = row.tenant := by
  unfold bump
  split_ifs <;> rfl

theorem Row.bump_revision_pos (tenant : Bytes) (revision : Nat) (document : Bytes) {row : Row}
    (h : 0 < row.revision) : 0 < (row.bump tenant revision document).revision := by
  unfold bump
  split_ifs
  · exact Nat.succ_pos _
  · exact h

theorem map_tenant_bump (tenant : Bytes) (revision : Nat) (document : Bytes) (rows : List Row) :
    (rows.map (Row.bump tenant revision document)).map Row.tenant = rows.map Row.tenant := by
  rw [List.map_map]
  exact List.map_congr_left fun row _ => Row.bump_tenant tenant revision document row

/-- `UPDATE feature_flag_tenant_state SET revision = revision + 1, document = $3
WHERE tenant = $1 AND revision = $2`, with the number of rows affected. -/
def Table.update (table : Table) (tenant : Bytes) (revision : Nat) (document : Bytes) :
    Nat × Table :=
  (table.rows.countP fun row => row.Matches tenant revision, {
    rows := table.rows.map (Row.bump tenant revision document)
    text := by
      intro row hrow
      obtain ⟨old, hold, rfl⟩ := List.mem_map.mp hrow
      rw [Row.bump_tenant]
      exact table.text old hold
    primaryKey := by
      rw [map_tenant_bump]
      exact table.primaryKey
    check := by
      intro row hrow
      obtain ⟨old, hold, rfl⟩ := List.mem_map.mp hrow
      exact Row.bump_revision_pos tenant revision document (table.check old hold) })

/-- The statement that `CompareAndSwap` sends, with the number of rows affected.  The server refuses
a tenant that is no `TEXT`, and to store `NULL`. -/
def Table.execute (table : Table) (tenant : Bytes) (expectedRevision : Nat) (data : Option Bytes) :
    Except GoError (Nat × Table) :=
  if text : IsText tenant then
    match data with
    | some document => .ok (if expectedRevision = 0 then table.insert tenant document text
        else table.update tenant expectedRevision document)
    | none =>
      -- an update that matches no row stores nothing
      if expectedRevision ≠ 0 ∧ ∀ row ∈ table.rows, ¬ row.Matches tenant expectedRevision then
        .ok (0, table)
      else .error (.external 0)
  else .error (.external 0)

/-- `Load`; `Scan` reads the first row. -/
def load (request : BackendRequest) (tenant : Bytes) (table : Table) :
    Except GoError BackendAnswer :=
  match request.ctx.err, request.fault with
  | some e, _ => .error e
  | none, some e => .error (.wrapf "feature flags postgres load: %w" [] e)
  | none, none =>
    if IsText tenant then
      match table.select tenant with
      | [] => .ok (.loaded [] 0 false)
      | (data, revision) :: _ => .ok (.loaded data revision true)
    else .error (.wrapf "feature flags postgres load: %w" [] (.external 0))

def compareAndSwap (request : BackendRequest) (tenant : Bytes) (expectedRevision : Nat)
    (data : Option Bytes) (table : Table) : Except GoError BackendAnswer × Table :=
  match request.ctx.err, request.fault with
  | some e, _ => (.error e, table)
  | none, some e => (.error (.wrapf "feature flags postgres compare and swap: %w" [] e), table)
  | none, none =>
    match table.execute tenant expectedRevision data with
    | .error e => (.error (.wrapf "feature flags postgres compare and swap: %w" [] e), table)
    | .ok (rowsAffected, table') =>
      if rowsAffected ≠ 1 then (.error (.sentinel .storageConflict), table')
      else (.ok .swapped, table')

/-- A call. -/
def exec (table : Table) (request : BackendRequest) : Except GoError BackendAnswer × Table :=
  match request.call with
  | .load tenant => (load request tenant table, table)
  | .compareAndSwap tenant expectedRevision data =>
    compareAndSwap request tenant expectedRevision data table

end Postgres

/-! ### Valkey -/

namespace Valkey

/-- The hashes of a server. -/
abbrev Keyspace := GoMap (GoMap Bytes)

def hget (space : Keyspace) (key field : Bytes) : Option Bytes :=
  (space.getD key ∅)[field]?

/-- `HSET` of two fields. -/
def hset (space : Keyspace) (key field₁ value₁ field₂ value₂ : Bytes) : Keyspace :=
  space.insert key (((space.getD key ∅).insert field₁ value₁).insert field₂ value₂)

/-- The double nearest to a natural number, of two the one with the even significand. -/
def toDouble (n : Nat) : Nat :=
  if n < 2 ^ 53 then n
  else
    let unit := 2 ^ (n.log2 - 52)
    let below := n / unit
    let rest := n % unit
    if 2 * rest < unit ∨ 2 * rest = unit ∧ below % 2 = 0 then below * unit
    else (below + 1) * unit

/-- `tonumber` of a text of digits; no other text is written as a revision. -/
def tonumber (text : Bytes) : Option Nat := (digitsValue text).map toDouble

/-- A reply of the server. -/
inductive Message where
  | null
  | integer (n : Int)
  | bulk (data : Bytes)
  | array (messages : List Message)

/-- A value of `HGET` as an element of a Lua table that is returned; a missing one is `false`. -/
def Message.ofHget : Option Bytes → Message
  | some data => .bulk data
  | none => .null

def loadScript (key : Bytes) (space : Keyspace) : Message :=
  match hget space key (str "revision") with
  | none => .null
  | some revision =>
    match tonumber revision with
    -- a table that starts with `nil` is returned as an empty one
    | none => .array []
    | some number => .array [.integer number, .ofHget (hget space key (str "document"))]

/-- `compareAndSwapScript`; the arithmetic is that of doubles. -/
def compareAndSwapScript (key expectedArgument document : Bytes) (space : Keyspace) :
    Except GoError Message × Keyspace :=
  let current := hget space key (str "revision")
  let expected := tonumber expectedArgument
  match current with
  | none =>
    if expected ≠ some 0 then (.ok (.integer 0), space)
    else (.ok (.integer 1),
      hset space key (str "revision") (decimal 1) (str "document") document)
  | some current =>
    if tonumber current ≠ expected then (.ok (.integer 0), space)
    else
      match expected with
      -- arithmetic on `nil`
      | none => (.error (.external 0), space)
      | some expected => (.ok (.integer 1),
          hset space key (str "revision") (decimal (toDouble (expected + 1))) (str "document")
            document)

/-- `NativeTransport.Load`, with the reply. -/
def decodeLoaded : Message → Except GoError BackendAnswer
  | .null => .ok (.loaded [] 0 false)
  | .array [first, second] =>
    match first with
    | .integer revision =>
      if revision ≤ 0 then .error (.errorf "decode valkey tenant revision: %w" [])
      else
        match second with
        | .bulk data => .ok (.loaded data revision.toNat true)
        | _ => .error (.wrapf "decode valkey tenant document: %w" [] (.external 0))
    | _ => .error (.wrapf "decode valkey tenant revision: %w" [] (.external 0))
  | .array result => .error (.errorf "valkey tenant state reply has %d elements" [.d (len result)])
  | _ => .error (.external 0)

/-- `NativeTransport.CompareAndSwap`, with the reply. -/
def decodeSwapped : Message → Except GoError Bool
  | .integer result => .ok (result = 1)
  | _ => .error (.external 0)

/-- `hex.EncodeToString`. -/
def hexEncode (data : Bytes) : Bytes :=
  data.flatMap fun c => [Json.hexDigit (c.toNat / 16), Json.hexDigit (c.toNat % 16)]

/-- `NewBackend`: the namespace of the keys. -/
def newBackend (configured : Bytes) : Bytes :=
  if configured = [] then str "go-feature-flags" else configured

variable [Runtime]

/-- `key`. -/
def tenantKey (keyspace tenant : Bytes) : Bytes :=
  keyspace ++ str ":tenant:" ++ hexEncode (Runtime.sha256 tenant)

def load (keyspace : Bytes) (request : BackendRequest) (tenant : Bytes) (space : Keyspace) :
    Except GoError BackendAnswer :=
  match request.ctx.err, request.fault with
  | some e, _ => .error e
  | none, some e => .error (.wrapf "feature flags valkey load: %w" [] e)
  | none, none =>
    match decodeLoaded (loadScript (tenantKey keyspace tenant) space) with
    | .error e => .error (.wrapf "feature flags valkey load: %w" [] e)
    | .ok answer => .ok answer

def compareAndSwap (keyspace : Bytes) (request : BackendRequest) (tenant : Bytes)
    (expectedRevision : Nat) (data : Option Bytes) (space : Keyspace) :
    Except GoError BackendAnswer × Keyspace :=
  match request.ctx.err, request.fault with
  | some e, _ => (.error e, space)
  | none, some e => (.error (.wrapf "feature flags valkey compare and swap: %w" [] e), space)
  | none, none =>
    let (reply, space') := compareAndSwapScript (tenantKey keyspace tenant)
      (decimal expectedRevision) (data.getD []) space
    match reply.bind decodeSwapped with
    | .error e => (.error (.wrapf "feature flags valkey compare and swap: %w" [] e), space')
    | .ok false => (.error (.sentinel .storageConflict), space')
    | .ok true => (.ok .swapped, space')

/-- A call. -/
def exec (keyspace : Bytes) (space : Keyspace) (request : BackendRequest) :
    Except GoError BackendAnswer × Keyspace :=
  match request.call with
  | .load tenant => (load keyspace request tenant space, space)
  | .compareAndSwap tenant expectedRevision data =>
    compareAndSwap keyspace request tenant expectedRevision data space

end Valkey

end FeatureFlags
