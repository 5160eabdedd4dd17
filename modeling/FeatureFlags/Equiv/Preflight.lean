import FeatureFlags.OpenFeature
import FeatureFlags.Lib.Transaction

/-!
# The walk before the encoder

`validateStructuredValue` walks over a value before `json.Marshal` encodes it.

* `positions`: the values inside a value, in the order in which the encoder visits them.
* `took_of_validate`: what the walk has charged for a value that it accepts, and what such a value
  looks like.
* `maintains_validate`: the walk ends on every value, also on one that contains itself, and its
  arithmetic stays in the range of `int`.
-/

namespace FeatureFlags

open Go Json Lib

/-! ### Positions -/

section Positions

variable (types : Types) (heap : Heap)

/-- The values directly inside a value, in the order of the encoder. -/
def contents : Reflected → List Reflected
  | some (type, .pointer address) => [some ((types type).elem, heap.pointee type address)]
  | some (type, .map address) =>
    (sortedEntries (heap.entries address)).map fun x => some ((types type).elem, x.2)
  | some (type, .slice address length) =>
    if (types (types type).elem).kind = .uint8 then []
    else (heap.items type address length).map fun item => some ((types type).elem, item)
  | some (type, .array items) => items.map fun item => some ((types type).elem, item)
  | _ => []

/-- What is left of a value when it is taken out of its interfaces. -/
def unwrapped (value : Reflected) : Reflected := value.bind fun x => unwrap types x.1 x.2

/-- The value and the values inside it, down to so many levels. -/
def positions : Nat → Reflected → List Reflected
  | 0, _ => []
  | levels + 1, value =>
    unwrapped types value ::
      (contents types heap (unwrapped types value)).flatMap (positions levels)

/-- The value has no more levels. -/
def Fits : Nat → Reflected → Prop
  | 0, _ => False
  | levels + 1, value => ∀ y ∈ contents types heap (unwrapped types value), Fits levels y

variable {types heap} {levels levels' : Nat} {value : Reflected}

theorem Fits.mono (h : Fits types heap levels value) (hle : levels ≤ levels') :
    Fits types heap levels' value := by
  induction levels generalizing levels' value with
  | zero => exact h.elim
  | succ levels ih =>
    obtain ⟨k, rfl⟩ := Nat.exists_eq_add_of_le' hle
    intro y hy
    exact ih (h y hy) (Nat.le_add_left levels k)

end Positions

/-! ### Charges -/

section Charges

variable (types : Types) (heap : Heap)

/-- The commas between so many values. -/
def commas (n : Nat) : Int := (n - 1 : Nat)

def quotedLength (text : Bytes) : Int := len (Tree.string (escapeString text)).text

/-- What the walk charges for a value, apart from what is inside it. -/
def ownCharge : Reflected → Int
  | none => 4
  | some (type, content) =>
    match content with
    | .nilPointer | .nilMap | .nilSlice => 4
    | .pointer _ => 0
    | .map address => 2 + ((heap.entries address).map fun x => quotedLength x.1 + 2).sum
    | .slice _ length =>
      if (types (types type).elem).kind = .uint8 then
        2 + (length / 3 : Nat) * 4 + if length % 3 = 0 then 0 else 4
      else 2 + commas length
    | .array items => 2 + commas items.length
    | .string text => quotedLength text
    | .bool _ => 5
    | .int _ | .uint _ => 20
    | .float _ => 32
    | _ => 0

/-- What the walk charges for values. -/
def totalCharge (values : List Reflected) : Int := (values.map (ownCharge types heap)).sum

variable (type : Nat) in
/-- The values of a kind that the walk accepts. -/
inductive Shape : Datum → Prop
  | nilPointer (kind : (types type).kind = .pointer) : Shape .nilPointer
  | pointer {address : Nat} (kind : (types type).kind = .pointer) : Shape (.pointer address)
  | nilMap (kind : (types type).kind = .map) : Shape .nilMap
  | map {address : Nat} (kind : (types type).kind = .map)
      (key : (types (types type).key).kind = .string) : Shape (.map address)
  | nilSlice (kind : (types type).kind = .slice) : Shape .nilSlice
  | bytes {address length : Nat} (kind : (types type).kind = .slice)
      (elem : (types (types type).elem).kind = .uint8) : Shape (.slice address length)
  | slice {address length : Nat} (kind : (types type).kind = .slice)
      (elem : (types (types type).elem).kind ≠ .uint8) : Shape (.slice address length)
  | array {items : List Datum} (kind : (types type).kind = .array) : Shape (.array items)
  | string {text : Bytes} (kind : (types type).kind = .string) : Shape (.string text)
  | bool {value : Bool} (kind : (types type).kind = .bool) : Shape (.bool value)
  | int {value : Int64} (kind : (types type).kind.isInt = true) : Shape (.int value)
  | uint {value : UInt64} (kind : (types type).kind.isUint = true) : Shape (.uint value)
  | float {value : Float64} (kind : (types type).kind.isFloat = true)
      (finite : value.isNaN = false ∧ value.isInf = false) : Shape (.float value)

/-- A value that the walk accepts: nil, or one of these kinds without methods of its own. -/
def Supported (value : Reflected) : Prop :=
  ∀ type content, value = some (type, content) →
    implementsCustomEncoding types type = false ∧ Shape types type content

/-- The walk took these values and charged `extra` besides. -/
structure Took (limits : Limits) (levels : Nat) (values : List Reflected) (extra : Int)
    (b b' : StructuredBudget) : Prop where
  fits : ∀ value ∈ values, Fits types heap levels value
  supported : ∀ x ∈ values.flatMap (positions types heap levels), Supported types x
  bytes : b'.bytes =
    b.bytes + extra + totalCharge types heap (values.flatMap (positions types heap levels))
  nodes : b'.nodes = b.nodes + len (values.flatMap (positions types heap levels))
  seen : b'.seen = b.seen
  bytes_le : b.bytes ≤ limits.maxStructuredBytes → b'.bytes ≤ limits.maxStructuredBytes
  nodes_le : b.nodes ≤ limits.maxStructuredBytes → b'.nodes ≤ limits.maxStructuredBytes

end Charges

/-! ### What the walk charges -/

section Walk

variable {types : Types} {heap : Heap} {limits : Limits} {levels : Nat}
  {b b' b'' : StructuredBudget} {values values' : List Reflected} {extra extra' : Int} {u : Unit}

theorem totalCharge_append (values values' : List Reflected) :
    totalCharge types heap (values ++ values') =
      totalCharge types heap values + totalCharge types heap values' := by
  simp [totalCharge]

theorem run_checkedInt_eq_ok {n m : Int} :
    (checkedInt n).run b = .ok m b' ↔ InInt n ∧ m = n ∧ b' = b := by
  unfold checkedInt
  split_ifs with h
  · simp [h, eq_comm]
  · simp [h, run_throw]

@[simp] theorem run_refuse_eq_ok {format : String} {args : List Arg} :
    (refuse format args).run b = .ok u b' ↔ False := by
  simp [refuse, run_throw]

theorem bytes_of_add {count : Int} (h : (addStructuredBytes limits count).run b = .ok u b') :
    b' = { b with bytes := b.bytes + count } ∧ b'.bytes ≤ limits.maxStructuredBytes := by
  simp only [addStructuredBytes, run_bind_eq_ok, EStateM.run_get, EStateM.Result.ok.injEq] at h
  obtain ⟨_, _, ⟨rfl, rfl⟩, h⟩ := h
  split_ifs at h with hnegative
  · simp at h
  · simp only [run_bind_eq_ok, run_checkedInt_eq_ok] at h
    obtain ⟨_, _, ⟨-, rfl, rfl⟩, h⟩ := h
    split_ifs at h with hroom
    · simp at h
    · simp only [run_bind_eq_ok, run_checkedInt_eq_ok, EStateM.run_set,
        EStateM.Result.ok.injEq] at h
      obtain ⟨_, _, ⟨-, rfl, rfl⟩, -, rfl⟩ := h
      refine ⟨rfl, ?_⟩
      dsimp only
      omega

theorem bytes_of_addString {text : Bytes} (h : (addStructuredString limits text).run b = .ok u b') :
    b' = { b with bytes := b.bytes + quotedLength text } ∧
      b'.bytes ≤ limits.maxStructuredBytes := by
  unfold addStructuredString at h
  split_ifs at h
  · simp at h
  · exact bytes_of_add h

theorem Took.charge (h : b' = { b with bytes := b.bytes + extra })
    (hle : b'.bytes ≤ limits.maxStructuredBytes) : Took types heap limits levels [] extra b b' where
  fits _ hvalue := nomatch hvalue
  supported _ hx := nomatch hx
  bytes := by
    rw [h]
    simp [totalCharge]
  nodes := by
    rw [h]
    simp
  seen := by rw [h]
  bytes_le _ := hle
  nodes_le hnodes := by
    rw [h]
    exact hnodes

theorem Took.none (b : StructuredBudget) : Took types heap limits levels [] 0 b b where
  fits _ hvalue := nomatch hvalue
  supported _ hx := nomatch hx
  bytes := by simp [totalCharge]
  nodes := by simp
  seen := rfl
  bytes_le hbytes := hbytes
  nodes_le hnodes := hnodes

theorem Took.append (h : Took types heap limits levels values extra b b')
    (h' : Took types heap limits levels values' extra' b' b'') :
    Took types heap limits levels (values ++ values') (extra + extra') b b'' where
  fits value hvalue := (List.mem_append.mp hvalue).elim (h.fits value) (h'.fits value)
  supported x hx := by
    rw [List.flatMap_append] at hx
    exact (List.mem_append.mp hx).elim (h.supported x) (h'.supported x)
  bytes := by
    rw [List.flatMap_append, totalCharge_append, h'.bytes, h.bytes]
    omega
  nodes := by
    rw [List.flatMap_append, len, List.length_append, h'.nodes, h.nodes, len, len]
    omega
  seen := h'.seen.trans h.seen
  bytes_le hbytes := h'.bytes_le (h.bytes_le hbytes)
  nodes_le hnodes := h'.nodes_le (h.nodes_le hnodes)

/-- The order in which the values were taken does not matter. -/
theorem Took.perm (h : Took types heap limits levels values extra b b')
    (hperm : values'.Perm values) : Took types heap limits levels values' extra b b' where
  fits value hvalue := h.fits value (hperm.mem_iff.mp hvalue)
  supported x hx := h.supported x ((hperm.flatMap_right _).mem_iff.mp hx)
  bytes := by
    have hsum : totalCharge types heap (values'.flatMap (positions types heap levels)) =
        totalCharge types heap (values.flatMap (positions types heap levels)) :=
      ((hperm.flatMap_right _).map _).sum_eq
    rw [hsum, h.bytes]
  nodes := by
    rw [len, (hperm.flatMap_right _).length_eq, h.nodes, len]
  seen := h.seen
  bytes_le := h.bytes_le
  nodes_le := h.nodes_le

/-- A visit that was entered is left. -/
theorem Took.visited {visit : Nat × Nat}
    (h : Took types heap limits levels values extra { b with seen := visit :: b.seen } b') :
    Took types heap limits levels values extra b
      { b' with seen := b'.seen.erase visit } where
  fits := h.fits
  supported := h.supported
  bytes := h.bytes
  nodes := h.nodes
  seen := by
    rw [h.seen]
    exact List.erase_cons_head visit b.seen
  bytes_le := h.bytes_le
  nodes_le := h.nodes_le

theorem seen_of_enter {visit : Nat × Nat} (h : (enterStructuredValue visit).run b = .ok u b') :
    b' = { b with seen := visit :: b.seen } := by
  simp only [enterStructuredValue, run_bind_eq_ok, EStateM.run_get, EStateM.Result.ok.injEq] at h
  obtain ⟨_, _, ⟨rfl, rfl⟩, h⟩ := h
  split_ifs at h
  · simp at h
  · simp only [EStateM.run_set, EStateM.Result.ok.injEq] at h
    exact h.2.symm

theorem seen_of_leave {visit : Nat × Nat} (h : (leave visit).run b = .ok u b') :
    b' = { b with seen := b.seen.erase visit } := by
  simp only [leave, EStateM.run_modify, EStateM.Result.ok.injEq] at h
  exact h.2.symm

variable {check : Datum → Walk Unit} {elem : Nat}

section

variable (hcheck : ∀ item b b', (check item).run b = .ok () b' → Took types heap limits levels
  [some (elem, item)] 0 b b')
include hcheck

theorem took_of_entries {entries} (h : (validateEntries limits check entries).run b = .ok u b') :
    Took types heap limits levels (entries.map fun x => some (elem, x.2))
      ((entries.map fun x => quotedLength x.1 + 2).sum) b b' := by
  induction entries generalizing b with
  | nil =>
    obtain ⟨-, rfl⟩ := EStateM.Result.ok.inj h
    exact Took.none b
  | cons x rest ih =>
    obtain ⟨key, item⟩ := x
    simp only [validateEntries, run_bind_eq_ok] at h
    obtain ⟨_, _, hkey, _, _, hcolon, _, _, hitem, hrest⟩ := h
    obtain ⟨hkey, hkey'⟩ := bytes_of_addString hkey
    obtain ⟨hcolon, hcolon'⟩ := bytes_of_add hcolon
    have htook := (((Took.charge hkey hkey').append (Took.charge hcolon hcolon')).append
      (hcheck item _ _ hitem)).append (ih hrest)
    simpa [add_assoc] using htook

theorem took_of_items {items : List Datum} {first : Bool}
    (h : (validateItems limits check first items).run b = .ok u b') :
    Took types heap limits levels (items.map fun item => some (elem, item))
      (if first then commas items.length else items.length) b b' := by
  induction items generalizing b first with
  | nil =>
    obtain ⟨-, rfl⟩ := EStateM.Result.ok.inj h
    cases first <;> exact Took.none b
  | cons item rest ih =>
    cases first with
    | true =>
      simp only [validateItems, if_pos, run_bind_eq_ok] at h
      obtain ⟨_, _, hitem, hrest⟩ := h
      have htook := (hcheck item _ _ hitem).append (ih hrest)
      simpa [commas] using htook
    | false =>
      simp only [validateItems, Bool.false_eq_true, if_false, run_bind_eq_ok] at h
      obtain ⟨_, _, hcomma, _, _, hitem, hrest⟩ := h
      obtain ⟨hcomma, hcomma'⟩ := bytes_of_add hcomma
      have htook := (Took.charge hcomma hcomma').append ((hcheck item _ _ hitem).append (ih hrest))
      simpa [add_comm] using htook

end

theorem took_of_byteSlice {length : Nat}
    (h : (addStructuredByteSlice limits length).run b = .ok u b') :
    Took types heap limits levels []
      (2 + (length / 3 : Nat) * 4 + if length % 3 = 0 then 0 else 4) b b' := by
  simp only [addStructuredByteSlice, run_bind_eq_ok] at h
  obtain ⟨_, _, hquotes, h⟩ := h
  obtain ⟨hquotes, hquotes'⟩ := bytes_of_add hquotes
  split at h
  · simp at h
  · simp only [run_bind_eq_ok, run_checkedInt_eq_ok] at h
    obtain ⟨_, _, ⟨-, rfl, rfl⟩, _, _, hcount, h⟩ := h
    obtain ⟨hcount, hcount'⟩ := bytes_of_add hcount
    have htook : Took types heap limits levels [] (2 + (length / 3 : Nat) * 4) b _ :=
      (Took.charge hquotes hquotes').append (Took.charge hcount hcount')
    split_ifs at h ⊢
    · obtain ⟨-, rfl⟩ := EStateM.Result.ok.inj h
      simpa using htook
    · obtain ⟨hpad, hpad'⟩ := bytes_of_add h
      simpa using htook.append (Took.charge hpad hpad')

/-- The branches of the walk, for the values inside a value that it accepts. -/
theorem took_of_content {check : Nat → Datum → Walk Unit} {type : Nat} {content : Datum}
    (hcheck : ∀ type item b b', (check type item).run b = .ok () b' →
      Took types heap limits levels [some (type, item)] 0 b b')
    (h : (validateContent limits types heap check type content).run b = .ok u b') :
    implementsCustomEncoding types type = false ∧ Shape types type content ∧
      Took types heap limits levels (contents types heap (some (type, content)))
        (ownCharge types heap (some (type, content))) b b' := by
  unfold validateContent at h
  dsimp only at h
  split at h
  · simp at h
  split at h
  · simp at h
  rename_i hcustom
  rw [Bool.not_eq_true] at hcustom
  refine ⟨hcustom, ?_⟩
  split at h
  · rename_i hkind
    obtain ⟨h, hle⟩ := bytes_of_add h
    exact ⟨.nilPointer hkind, Took.charge h hle⟩
  · rename_i address hkind
    simp only [run_bind_eq_ok] at h
    obtain ⟨_, _, henter, _, _, hinside, hleave⟩ := h
    rw [seen_of_leave hleave]
    rw [seen_of_enter henter] at hinside
    exact ⟨.pointer hkind, (hcheck _ _ _ _ hinside).visited⟩
  · rename_i hkind
    split at h
    · simp at h
    · rename_i hkey
      rw [not_not] at hkey
      split at h
      · obtain ⟨h, hle⟩ := bytes_of_add h
        exact ⟨.nilMap hkind, Took.charge h hle⟩
      · rename_i address
        simp only [run_bind_eq_ok] at h
        obtain ⟨_, _, henter, _, _, hbraces, _, _, hentries, hleave⟩ := h
        rw [seen_of_enter henter] at hbraces
        obtain ⟨hbraces, hbraces'⟩ := bytes_of_add hbraces
        rw [seen_of_leave hleave]
        have htook := (Took.charge hbraces hbraces').append
          (took_of_entries (hcheck (types type).elem) hentries)
        -- the encoder visits the entries in the order of their keys
        exact ⟨.map hkind hkey, (htook.perm ((List.perm_insertionSort _ _).map _)).visited⟩
      · simp at h
  · rename_i hkind
    obtain ⟨h, hle⟩ := bytes_of_add h
    exact ⟨.nilSlice hkind, Took.charge h hle⟩
  · rename_i address length hkind
    rw [contents, ownCharge]
    split at h
    · rename_i helem
      rw [if_pos helem, if_pos helem]
      exact ⟨.bytes hkind helem, took_of_byteSlice h⟩
    · rename_i helem
      simp only [run_bind_eq_ok] at h
      obtain ⟨_, _, henter, _, _, hbrackets, _, _, hitems, hleave⟩ := h
      rw [seen_of_enter henter] at hbrackets
      obtain ⟨hbrackets, hbrackets'⟩ := bytes_of_add hbrackets
      rw [seen_of_leave hleave, if_neg helem, if_neg helem]
      have htook := (Took.charge hbrackets hbrackets').append
        (took_of_items (hcheck (types type).elem) hitems)
      rw [if_pos rfl, Heap.items, List.length_map, List.length_range] at htook
      exact ⟨.slice hkind helem, htook.visited⟩
  · rename_i items hkind
    simp only [run_bind_eq_ok] at h
    obtain ⟨_, _, hbrackets, hitems⟩ := h
    obtain ⟨hbrackets, hbrackets'⟩ := bytes_of_add hbrackets
    exact ⟨.array hkind, (Took.charge hbrackets hbrackets').append
      (took_of_items (hcheck (types type).elem) hitems)⟩
  · rename_i text hkind
    obtain ⟨h, hle⟩ := bytes_of_addString h
    exact ⟨.string hkind, Took.charge h hle⟩
  · rename_i value hkind
    obtain ⟨h, hle⟩ := bytes_of_add h
    exact ⟨.bool hkind, Took.charge h hle⟩
  · split at h
    · rename_i hkind
      obtain ⟨h, hle⟩ := bytes_of_add h
      exact ⟨.int hkind, Took.charge h hle⟩
    · simp at h
  · split at h
    · rename_i hkind
      obtain ⟨h, hle⟩ := bytes_of_add h
      exact ⟨.uint hkind, Took.charge h hle⟩
    · simp at h
  · split at h
    · rename_i hkind
      split at h
      · simp at h
      · rename_i hfinite
        simp only [not_or, Bool.not_eq_true] at hfinite
        obtain ⟨h, hle⟩ := bytes_of_add h
        exact ⟨.float hkind hfinite, Took.charge h hle⟩
    · simp at h
  · simp at h

/-- A value is taken with what is inside it. -/
theorem Took.node {value : Reflected} (hsupported : Supported types (unwrapped types value))
    (hinside : Took types heap limits levels (contents types heap (unwrapped types value))
      (ownCharge types heap (unwrapped types value)) { b with nodes := b.nodes + 1 } b')
    (hnodes : b.nodes < limits.maxStructuredBytes) :
    Took types heap limits (levels + 1) [value] 0 b b' where
  fits := by
    rintro _ (_ | ⟨_, ⟨⟩⟩)
    exact hinside.fits
  supported x hx := by
    rw [List.flatMap_singleton, positions] at hx
    rcases List.mem_cons.mp hx with rfl | hx
    · exact hsupported
    · exact hinside.supported x hx
  bytes := by
    rw [List.flatMap_singleton, positions, hinside.bytes, totalCharge, totalCharge, List.map_cons,
      List.sum_cons]
    dsimp only
    omega
  nodes := by
    rw [List.flatMap_singleton, positions, hinside.nodes, len, len, List.length_cons]
    push_cast
    omega
  seen := hinside.seen
  bytes_le := hinside.bytes_le
  nodes_le _ := hinside.nodes_le hnodes

/-- What the walk has charged for a value that it accepts. -/
theorem took_of_validate {depth : Int} {value : Reflected}
    (h : (validateStructuredValue limits types heap levels depth value).run b = .ok u b') :
    Took types heap limits (limits.maxEvaluationDepth + 1 - depth).toNat [value] 0 b b' := by
  induction levels generalizing depth value b b' u with
  | zero => simp [validateStructuredValue, run_throw] at h
  | succ levels ih =>
    rw [validateStructuredValue] at h
    split at h
    · simp at h
    rename_i hdepth
    simp only [run_bind_eq_ok, EStateM.run_get, EStateM.Result.ok.injEq] at h
    obtain ⟨_, _, ⟨rfl, rfl⟩, h⟩ := h
    split at h
    · simp at h
    rename_i hnodes
    simp only [run_bind_eq_ok, run_checkedInt_eq_ok, EStateM.run_set, EStateM.Result.ok.injEq] at h
    obtain ⟨_, b, ⟨-, rfl, rfl⟩, _, _, ⟨-, rfl⟩, h⟩ := h
    have hlevels : (limits.maxEvaluationDepth + 1 - depth).toNat =
        (limits.maxEvaluationDepth + 1 - (depth + 1)).toNat + 1 := by omega
    rw [hlevels]
    change EStateM.run (match unwrapped types value with
      | none => _
      | some (type, content) => _) _ = _ at h
    have hinside : Supported types (unwrapped types value) ∧
        Took types heap limits (limits.maxEvaluationDepth + 1 - (depth + 1)).toNat
          (contents types heap (unwrapped types value))
          (ownCharge types heap (unwrapped types value)) { b with nodes := b.nodes + 1 } b' := by
      cases hvalue : unwrapped types value with
      | none =>
        rw [hvalue] at h
        obtain ⟨h, hle⟩ := bytes_of_add h
        exact ⟨fun _ _ hcontent => (nomatch hcontent), Took.charge h hle⟩
      | some x =>
        obtain ⟨type, content⟩ := x
        rw [hvalue] at h
        obtain ⟨hcustom, hshape, htook⟩ := took_of_content (fun type item c c' hbelow => by
          simp only [run_bind_eq_ok, run_checkedInt_eq_ok] at hbelow
          obtain ⟨_, _, ⟨-, rfl, rfl⟩, hbelow⟩ := hbelow
          exact ih hbelow) h
        refine ⟨?_, htook⟩
        rintro _ _ ⟨⟩
        exact ⟨hcustom, hshape⟩
    exact Took.node hinside.1 hinside.2 (not_le.mp hnodes)

end Walk

/-! ### How the walk ends -/

section Ends

def Stop.Returned (stop : Stop) : Prop := ∃ e, stop = .error e

structure Counted (depth : Int) (b : StructuredBudget) : Prop where
  bytes : 0 ≤ b.bytes
  nodes : depth ≤ b.nodes
  inInt : InInt b.nodes

variable {types : Types} {heap : Heap} {limits : Limits} {depth : Int}

theorem Counted.shallower {b} (h : Counted (depth + 1) b) : Counted depth b :=
  ⟨h.bytes, by have := h.nodes; omega, h.inInt⟩

theorem maintains_refuse (format : String) (args : List Arg) :
    Maintains (Counted depth) Stop.Returned (refuse format args) :=
  maintains_throw ⟨_, rfl⟩

theorem maintains_checkedInt_bind {α : Type} {n : Int} {f : Int → Walk α}
    (hn : ∀ b, Counted depth b → InInt n) (hf : Maintains (Counted depth) Stop.Returned (f n)) :
    Maintains (Counted depth) Stop.Returned (checkedInt n >>= f) := by
  intro b hb
  rw [checkedInt, if_pos (hn b hb), pure_bind]
  exact hf b hb

theorem maintains_addBytes (hmax : InInt limits.maxStructuredBytes) (count : Int) :
    Maintains (Counted depth) Stop.Returned (addStructuredBytes limits count) := by
  refine maintains_get_bind fun b hb => ?_
  split_ifs with hfull
  · exact maintains_refuse _ _ b hb
  · have hbytes := hb.bytes
    have hroom : InInt (limits.maxStructuredBytes - b.bytes) := by
      unfold InInt at hmax ⊢
      omega
    rw [checkedInt, if_pos hroom, pure_bind]
    split_ifs with hcount
    · exact maintains_refuse _ _ b hb
    · have hsum : InInt (b.bytes + count) := by
        unfold InInt at hmax ⊢
        omega
      rw [checkedInt, if_pos hsum, pure_bind]
      simp only [EStateM.run_set, EStateM.Result.ok.injEq, reduceCtorEq, false_implies,
        implies_true, and_true]
      rintro _ _ ⟨-, rfl⟩
      exact ⟨by dsimp only; omega, hb.nodes, hb.inInt⟩

theorem maintains_addString (hmax : InInt limits.maxStructuredBytes) (text : Bytes) :
    Maintains (Counted depth) Stop.Returned (addStructuredString limits text) := by
  unfold addStructuredString
  split_ifs
  · exact maintains_refuse _ _
  · exact maintains_addBytes hmax _

theorem maintains_enter (visit : Nat × Nat) :
    Maintains (Counted depth) Stop.Returned (enterStructuredValue visit) := by
  refine maintains_get_bind fun b hb => ?_
  split_ifs with hseen
  · exact maintains_refuse _ _ b hb
  · simp only [EStateM.run_set, EStateM.Result.ok.injEq, reduceCtorEq, false_implies,
      implies_true, and_true]
    rintro _ _ ⟨-, rfl⟩
    exact ⟨hb.bytes, hb.nodes, hb.inInt⟩

theorem maintains_leave (visit : Nat × Nat) :
    Maintains (Counted depth) Stop.Returned (leave visit) :=
  maintains_modify fun _ hb => ⟨hb.bytes, hb.nodes, hb.inInt⟩

variable (hmax : InInt limits.maxStructuredBytes)
include hmax

theorem maintains_byteSlice (length : Nat) :
    Maintains (Counted depth) Stop.Returned (addStructuredByteSlice limits length) := by
  refine (maintains_addBytes hmax 2).bind fun _ => ?_
  dsimp only
  split
  · exact maintains_refuse _ _
  · rename_i hgroups
    refine maintains_checkedInt_bind (fun _ _ => ?_) ((maintains_addBytes hmax _).bind fun _ => ?_)
    · unfold InInt at hmax ⊢
      rw [Int.tdiv_eq_ediv, show Int.sign 4 = 1 from rfl] at hgroups
      split_ifs at hgroups <;> omega
    · split_ifs
      · exact maintains_pure ()
      · exact maintains_addBytes hmax 4

variable {check : Datum → Walk Unit}

theorem maintains_entries (hcheck : ∀ item, Maintains (Counted depth) Stop.Returned (check item))
    (entries : List (Bytes × Datum)) :
    Maintains (Counted depth) Stop.Returned (validateEntries limits check entries) := by
  induction entries with
  | nil => exact maintains_pure ()
  | cons x rest ih =>
    exact (maintains_addString hmax x.1).bind fun _ => (maintains_addBytes hmax 2).bind fun _ =>
      (hcheck x.2).bind fun _ => ih

theorem maintains_items (hcheck : ∀ item, Maintains (Counted depth) Stop.Returned (check item))
    (first : Bool) (items : List Datum) :
    Maintains (Counted depth) Stop.Returned (validateItems limits check first items) := by
  induction items generalizing first with
  | nil => exact maintains_pure ()
  | cons item rest ih =>
    have hrest := (hcheck item).bind fun _ => ih false
    cases first with
    | true => exact hrest
    | false => exact (maintains_addBytes hmax 1).bind fun _ => hrest

theorem maintains_content {check : Nat → Datum → Walk Unit}
    (hcheck : ∀ type item, Maintains (Counted depth) Stop.Returned (check type item)) (type : Nat)
    (content : Datum) :
    Maintains (Counted depth) Stop.Returned
      (validateContent limits types heap check type content) := by
  unfold validateContent
  dsimp only
  split
  · exact maintains_refuse _ _
  split
  · exact maintains_refuse _ _
  split
  · exact maintains_addBytes hmax 4
  · exact (maintains_enter _).bind fun _ => (hcheck _ _).bind fun _ => maintains_leave _
  · split
    · exact maintains_refuse _ _
    · split
      · exact maintains_addBytes hmax 4
      · exact (maintains_enter _).bind fun _ => (maintains_addBytes hmax 2).bind fun _ =>
          (maintains_entries hmax (hcheck _) _).bind fun _ => maintains_leave _
      · exact maintains_refuse _ _
  · exact maintains_addBytes hmax 4
  · split
    · exact maintains_byteSlice hmax _
    · exact (maintains_enter _).bind fun _ => (maintains_addBytes hmax 2).bind fun _ =>
        (maintains_items hmax (hcheck _) true _).bind fun _ => maintains_leave _
  · exact (maintains_addBytes hmax 2).bind fun _ => maintains_items hmax (hcheck _) true _
  · exact maintains_addString hmax _
  · exact maintains_addBytes hmax 5
  · split
    · exact maintains_addBytes hmax 20
    · exact maintains_refuse _ _
  · split
    · exact maintains_addBytes hmax 20
    · exact maintains_refuse _ _
  · split
    · split
      · exact maintains_refuse _ _
      · exact maintains_addBytes hmax 32
    · exact maintains_refuse _ _
  · exact maintains_refuse _ _

/-- The walk returns: it never needs more levels and its arithmetic never leaves the range. -/
theorem maintains_validate (hdepth : 0 ≤ depth) {levels : Nat}
    (hlevels : (limits.maxEvaluationDepth + 1 - depth).toNat < levels) (value : Reflected) :
    Maintains (Counted depth) Stop.Returned
      (validateStructuredValue limits types heap levels depth value) := by
  induction levels generalizing depth value with
  | zero => exact absurd hlevels (Nat.not_lt_zero _)
  | succ levels ih =>
    rw [validateStructuredValue]
    split
    · exact maintains_refuse _ _
    rename_i hle
    have hbelow (type : Nat) (item : Datum) : Maintains (Counted (depth + 1)) Stop.Returned (do
        let deeper ← checkedInt (depth + 1)
        validateStructuredValue limits types heap levels deeper (some (type, item))) := by
      refine maintains_checkedInt_bind (fun b hb => ?_) (ih (by omega) (by omega) _)
      have hnodes := hb.nodes
      have hint := hb.inInt
      unfold InInt at hint ⊢
      omega
    refine maintains_get_bind fun b hb => ?_
    split
    · exact maintains_refuse _ _ b hb
    rename_i hroom
    have hint : InInt (b.nodes + 1) := by
      have hint := hb.inInt
      unfold InInt at hmax hint ⊢
      omega
    have hb' : Counted (depth + 1) { b with nodes := b.nodes + 1 } :=
      ⟨hb.bytes, Int.add_le_add_right hb.nodes 1, hint⟩
    rw [checkedInt, if_pos hint, pure_bind, EStateM.run_bind, EStateM.run_set]
    have hreturned {x : Walk Unit} (hx : Maintains (Counted (depth + 1)) Stop.Returned x) :=
      (hx _ hb').imp_left fun h a t ht => (h a t ht).shallower
    dsimp only
    split
    · exact hreturned (maintains_addBytes hmax 4)
    · exact hreturned (maintains_content hmax hbelow _ _)

end Ends

end FeatureFlags
