import Mathlib.Algebra.Group.Nat.Defs
import Mathlib.Tactic.Ring

/-! # Wire formats

A message is written as a list of fields, one after the other, and read back by a reader that takes
the fields off the front of the input in the same order. Integers are big endian and of a fixed
number of bytes; a list comes after its length.

`Reads r x a` says that the reader `r` takes just `x` off any input that starts with it and returns
`a`. The rules follow the shape of a reader: `Reads.next` for one field and the rest, `Reads.done` for
the end, and `reads_u8`, `reads_u32`, `reads_u64`, `reads_data` and `reads_list` for the kinds of
fields. -/

namespace OmniPaxosBench.Lib

abbrev Bytes := List UInt8

/-- Why a reader stops: too few bytes are left, the code panics, or it returns an error. -/
inductive ReadError
  | underflow
  | panic (message : String)
  | invalidType (message : String)
  deriving DecidableEq, Repr

/-- A reader takes bytes off the front of its input. -/
abbrev Reader (α : Type) := StateT Bytes (Except ReadError) α

/-! ### Fields -/

/-- The lowest `width` bytes of a number, the most significant one first. -/
def putUint : ℕ → ℕ → Bytes
  | 0, _ => []
  | width + 1, n => UInt8.ofNat (n / 256 ^ width) :: putUint width n

/-- The number a list of bytes stands for, after `acc` was read. -/
def uintFrom (acc : ℕ) : Bytes → ℕ
  | [] => acc
  | b :: bs => uintFrom (acc * 256 + b.toNat) bs

/-- The next `len` bytes. -/
def getSlice (len : ℕ) : Reader Bytes := fun input =>
  if input.length < len then .error .underflow else .ok (input.take len, input.drop len)

def getUint (width : ℕ) : Reader ℕ := do
  let bytes ← getSlice width
  return uintFrom 0 bytes

def putU8 (b : UInt8) : Bytes := [b]

def putU32 (n : ℕ) : Bytes := putUint 4 n

def putU64 (n : ℕ) : Bytes := putUint 8 n

def getU8 : Reader UInt8 := fun input =>
  match input with
  | [] => .error .underflow
  | b :: rest => .ok (b, rest)

def getU32 : Reader ℕ := getUint 4

def getU64 : Reader ℕ := getUint 8

/-- A signed number, in two's complement. -/
def putI64 (t : Int64) : Bytes := putU64 t.toUInt64.toNat

def getI64 : Reader Int64 := do
  let n ← getU64
  return (UInt64.ofNat n).toInt64

/-- Run a reader a number of times. -/
def repeated {α : Type} (r : Reader α) : ℕ → Reader (List α)
  | 0 => return []
  | len + 1 => do
    let x ← r
    let xs ← repeated r len
    return x :: xs

/-- A list after its length; the length is cut to 32 bits. -/
def putList {α : Type} (put : α → Bytes) (as : List α) : Bytes :=
  (putU32 as.length :: as.map put).flatten

def getList {α : Type} (r : Reader α) : Reader (List α) := do
  let len ← getU32
  repeated r len

/-- A byte string after its length. -/
def putData (data : Bytes) : Bytes := [putU32 data.length, data].flatten

def getData : Reader Bytes := do
  let len ← getU32
  getSlice len

/-! ### Reading what was written -/

/-- The reader takes `x` off any input that starts with it, and returns `a`. -/
def Reads {α : Type} (r : Reader α) (x : Bytes) (a : α) : Prop :=
  ∀ rest, r (x ++ rest) = .ok (a, rest)

variable {α β : Type} {r : Reader α} {f : α → Reader β} {x : Bytes} {xs : List Bytes} {a : α} {b : β}

/-- **One field and the rest.** -/
theorem Reads.next (hx : Reads r x a) (hxs : Reads (f a) xs.flatten b) :
    Reads (r >>= f) (x :: xs).flatten b := by
  intro rest
  have hbind : (r >>= f) ((x :: xs).flatten ++ rest) =
      (r ((x :: xs).flatten ++ rest)).bind fun p => f p.1 p.2 := rfl
  rw [hbind, List.flatten_cons, List.append_assoc, hx]
  exact hxs rest

/-- Nothing is left to read. -/
theorem Reads.done : Reads (pure a : Reader α) ([] : List Bytes).flatten a := fun _ => rfl

/-- One field, and nothing after it. -/
theorem Reads.only (hx : Reads r x a) (hf : Reads (f a) [] b) : Reads (r >>= f) x b := by
  have hread : Reads (r >>= f) [x].flatten b := hx.next hf
  rwa [List.flatten_cons, List.flatten_nil, List.append_nil] at hread

/-- One field, and a value made from it. -/
theorem Reads.last {g : α → β} (hx : Reads r x a) : Reads (do return g (← r)) x (g a) := hx.only .done

theorem Reads.of_eq {a' : α} (h : Reads r x a) (ha : a = a') : Reads r x a' := by
  subst ha
  exact h

/-- **What was written determines what is read.** -/
theorem Reads.unique {a' : α} (h : Reads r x a) (h' : Reads r x a') : a = a' := by
  have heq := (h []).symm.trans (h' [])
  cases heq
  rfl

theorem length_putUint (width n : ℕ) : (putUint width n).length = width := by
  induction width with
  | zero => rfl
  | succ width ih => rw [putUint, List.length_cons, ih]

theorem uintFrom_putUint (width n acc : ℕ) :
    uintFrom acc (putUint width n) = acc * 256 ^ width + n % 256 ^ width := by
  induction width generalizing acc with
  | zero => simp [putUint, uintFrom, Nat.mod_one]
  | succ width ih =>
    have hdigit : (UInt8.ofNat (n / 256 ^ width)).toNat = n / 256 ^ width % 256 := by simp
    have hsplit : n % 256 ^ (width + 1) = 256 ^ width * (n / 256 ^ width % 256) + n % 256 ^ width := by
      rw [Nat.pow_succ, Nat.mod_mul, Nat.add_comm]
    rw [putUint, uintFrom, ih, hdigit, hsplit]
    ring

theorem reads_slice {data : Bytes} {len : ℕ} (h : data.length = len) : Reads (getSlice len) data data := by
  intro rest
  unfold getSlice
  rw [if_neg (by rw [List.length_append]; omega), ← h, List.take_left, List.drop_left]

theorem reads_uint {width n : ℕ} (h : n < 256 ^ width) : Reads (getUint width) (putUint width n) n := by
  have hread := (reads_slice (length_putUint width n)).last (g := uintFrom 0)
  rwa [uintFrom_putUint, Nat.mod_eq_of_lt h, Nat.zero_mul, Nat.zero_add] at hread

theorem reads_u8 (b : UInt8) : Reads getU8 (putU8 b) b := fun _ => rfl

theorem reads_u32 {n : ℕ} (h : n < 2 ^ 32) : Reads getU32 (putU32 n) n := reads_uint (by norm_num at h ⊢; omega)

theorem reads_u64 {n : ℕ} (h : n < 2 ^ 64) : Reads getU64 (putU64 n) n := reads_uint (by norm_num at h ⊢; omega)

theorem reads_i64 (t : Int64) : Reads getI64 (putI64 t) t := by
  have hread := (reads_u64 t.toUInt64.toNat_lt).last (g := fun n => (UInt64.ofNat n).toInt64)
  rwa [UInt64.ofNat_toNat, Int64.toInt64_toUInt64] at hread

theorem reads_repeated {put : α → Bytes} {as : List α} (h : ∀ a ∈ as, Reads r (put a) a) :
    Reads (repeated r as.length) (as.map put).flatten as := by
  induction as with
  | nil => exact .done
  | cons a as ih =>
    have hhead := h a (List.mem_cons_self ..)
    have htail := ih fun a' ha' => h a' (List.mem_cons_of_mem a ha')
    exact hhead.next (htail.last (g := fun as' => a :: as'))

/-- **Lists** are read back item by item. -/
theorem reads_list {put : α → Bytes} {as : List α} (hlen : as.length < 2 ^ 32)
    (h : ∀ a ∈ as, Reads r (put a) a) : Reads (getList r) (putList put as) as :=
  (reads_u32 hlen).next (reads_repeated h)

/-- Items that are written one by one, each without an error, are read back one by one. -/
theorem reads_mapM {put : α → Except ReadError Bytes} {as : List α}
    (h : ∀ a ∈ as, ∃ x, put a = .ok x ∧ Reads r x a) :
    ∃ xs, as.mapM put = .ok xs ∧ Reads (repeated r as.length) xs.flatten as := by
  induction as with
  | nil => exact ⟨[], rfl, .done⟩
  | cons a as ih =>
    obtain ⟨x, hx, hhead⟩ := h a (List.mem_cons_self ..)
    obtain ⟨xs, hxs, htail⟩ := ih fun a' ha' => h a' (List.mem_cons_of_mem a ha')
    refine ⟨x :: xs, ?_, hhead.next (htail.last (g := fun as' => a :: as'))⟩
    rw [List.mapM_cons, hx, hxs]
    rfl

theorem reads_data {data : Bytes} (h : data.length < 2 ^ 32) : Reads getData (putData data) data := by
  refine (reads_u32 h).next ?_
  rw [List.flatten_cons, List.flatten_nil, List.append_nil]
  exact reads_slice rfl

/-- A family of messages is read back as it was written, whatever follows, and no two messages of it
are written alike. -/
def RoundTrips {M : Type} (Fits : M → Prop) (serialise : M → Bytes) (deserialise : Reader M) : Prop :=
  (∀ m, Fits m → ∀ rest, deserialise (serialise m ++ rest) = .ok (m, rest)) ∧
    ∀ m m', Fits m → Fits m' → serialise m = serialise m' → m = m'

theorem roundTrips_of_reads {M : Type} {Fits : M → Prop} {serialise : M → Bytes}
    {deserialise : Reader M} (h : ∀ m, Fits m → Reads deserialise (serialise m) m) :
    RoundTrips Fits serialise deserialise := by
  refine ⟨h, fun m m' hm hm' heq => ?_⟩
  have hread := h m' hm'
  rw [← heq] at hread
  exact (h m hm).unique hread

end OmniPaxosBench.Lib
