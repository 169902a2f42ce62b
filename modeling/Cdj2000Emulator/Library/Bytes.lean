import Mathlib.Algebra.Group.Nat.Defs
import Mathlib.Data.List.OfFn
import Mathlib.Tactic.SplitIfs
import Mathlib.Data.List.GetD

namespace Cdj2000Emulator.Library.Bytes

abbrev Byte := BitVec 8

/-- A block of `n` bytes. -/
abbrev Block (n : ℕ) := Fin n → Byte

namespace Block

variable {n m : ℕ}

def zeros : Block n := fun _ ↦ 0

/-- The byte at an offset, zero past the end. -/
def get (b : Block n) (i : ℕ) : Byte := if h : i < n then b ⟨i, h⟩ else 0

def put (o : ℕ) (block : Block m) (b : Block n) : Block n := fun i ↦
  if i < o then b i else if i < o + m then get block (i - o) else b i

/-- The `m` bytes from an offset. -/
def slice (b : Block n) (o m : ℕ) : Block m := fun i ↦ get b (o + i)

def bytes (b : Block n) : List Byte := List.ofFn b

variable {b : Block n} {block : Block m} {o i : ℕ}

theorem get_of_lt (h : i < n) : get b i = b ⟨i, h⟩ := dif_pos h

@[simp] theorem get_val (i : Fin n) : get b i = b i := get_of_lt i.isLt

@[simp] theorem get_zeros : get (zeros : Block n) i = 0 := by
  unfold get
  split_ifs <;> rfl

@[simp] theorem slice_zeros : slice (zeros : Block n) o m = zeros :=
  funext fun _ ↦ get_zeros

theorem slice_self : slice b 0 n = b := by
  funext i
  rw [slice, Nat.zero_add, get_val]

theorem put_inside {i : Fin n} (h : o ≤ i) (k : i < o + m) : put o block b i = get block (i - o) := by
  rw [put, if_neg (by omega), if_pos k]

theorem put_outside {i : Fin n} (h : i < o ∨ o + m ≤ i) : put o block b i = b i := by
  unfold put
  split_ifs
  · rfl
  · omega
  · rfl

@[simp] theorem length_bytes : (bytes b).length = n := List.length_ofFn

theorem take_bytes_put {b c : Block n} (h : m ≤ n) : (bytes (put 0 (slice b 0 m) c)).take m =
    bytes (slice b 0 m) := by
  refine List.ext_getElem (by simpa using h) fun i hi hj ↦ ?_
  have inside : i < m := by simpa using hj
  simp only [List.getElem_take, bytes, List.getElem_ofFn]
  rw [put_inside (Nat.zero_le _) (by simpa using inside), Nat.sub_zero, get_of_lt inside]

theorem slice_put_disjoint {a k : ℕ} (h : a + k ≤ o ∨ o + m ≤ a) :
    slice (put o block b) a k = slice b a k := by
  funext i
  unfold slice get
  split_ifs with inside
  · exact put_outside (by simp only; omega)
  · rfl

theorem slice_put_inside {a k : ℕ} (h : o ≤ a) (fits : a + k ≤ o + m) (room : a + k ≤ n) :
    slice (put o block b) a k = slice block (a - o) k := by
  funext i
  have inside : a + i < n := by omega
  have shift : a + i - o = a - o + i := by omega
  rw [slice, get_of_lt inside, put_inside (by simp only; omega) (by simp only; omega), slice]
  simp only [shift]

/-- A slice shows of a block laid down the part that meets it. -/
theorem slice_put {a k : ℕ} (room : a + k ≤ n) :
    slice (put o block b) a k =
      if o < a + k ∧ a < o + m then
        put (max o a - a) (slice block (max o a - o) (min (o + m) (a + k) - max o a)) (slice b a k)
      else slice b a k := by
  funext i
  have inside : a + i < n := by omega
  rw [slice, get_of_lt inside]
  split_ifs with meet
  · by_cases hit : o ≤ a + i ∧ a + i < o + m
    · have shift : max o a - o + (i - (max o a - a)) = a + i - o := by omega
      rw [put_inside hit.1 hit.2, put_inside (by omega) (by omega),
        get_of_lt (show i - (max o a - a) < min (o + m) (a + k) - max o a by omega), slice]
      simp only [shift]
    · rw [put_outside (by simp only; omega), put_outside (by omega), slice, get_of_lt inside]
  · rw [put_outside (by simp only; omega), slice, get_of_lt inside]

/-- A block laid over one of its own size replaces it. -/
theorem put_whole {c : Block n} : put 0 b c = b := by
  funext i
  rw [put_inside (Nat.zero_le i) (by omega), Nat.sub_zero, get_val]

/-- Laying a block is laying its two halves. -/
theorem put_split {a k : ℕ} (h : a + k = m) :
    put o block b = put (o + a) (slice block a k) (put o (slice block 0 a) b) := by
  funext i
  by_cases before : (i : ℕ) < o
  · rw [put_outside (by omega), put_outside (by omega), put_outside (by omega)]
  · by_cases front : (i : ℕ) < o + a
    · have inside : (i : ℕ) - o < a := by omega
      rw [put_inside (by omega) (by omega), put_outside (by omega), put_inside (by omega) front,
        get_of_lt inside, slice, Nat.zero_add]
    · by_cases back : (i : ℕ) < o + m
      · have inside : (i : ℕ) - (o + a) < k := by omega
        have shift : a + ((i : ℕ) - (o + a)) = i - o := by omega
        rw [put_inside (by omega) back, put_inside (by omega) (by omega), get_of_lt inside, slice,
          shift]
      · rw [put_outside (by omega), put_outside (by omega), put_outside (by omega)]

/-- Laying a block whose front is what is already there lays only its back. -/
theorem put_kept {a k : ℕ} (h : a + k = m) :
    put o (put 0 (slice b o a) block) b = put (o + a) (slice block a k) b := by
  funext i
  by_cases inside : o ≤ i ∧ i < o + m
  · have low : (i : ℕ) - o < m := by omega
    rw [put_inside inside.1 inside.2, get_of_lt low]
    by_cases front : (i : ℕ) < o + a
    · have kept : (i : ℕ) - o < a := by omega
      have left : put 0 (slice b o a) block ⟨i - o, low⟩ = b i := by
        rw [put_inside (Nat.zero_le _) (by rwa [Nat.zero_add]), Nat.sub_zero, get_of_lt kept, slice,
          Nat.add_sub_of_le inside.1, get_val]
      rw [left, put_outside (by omega)]
    · have fresh : (i : ℕ) - (o + a) < k := by omega
      have shift : a + ((i : ℕ) - (o + a)) = i - o := by omega
      have beyond : 0 + a ≤ (i : ℕ) - o := by omega
      have left : put 0 (slice b o a) block ⟨i - o, low⟩ = block ⟨i - o, low⟩ :=
        put_outside (Or.inr beyond)
      rw [left, put_inside (by omega) (by omega), get_of_lt fresh, slice, shift, get_of_lt low]
  · rw [put_outside (by omega), put_outside (by omega)]

end Block

open Block

/-- A block with its place in a larger one. -/
structure Patch where
  offset : ℕ
  size : ℕ
  block : Block size

namespace Patch

variable {n : ℕ} {b : Block n} {p q : Patch} {ps : List Patch}

def Apart (p q : Patch) : Prop := p.offset + p.size ≤ q.offset ∨ q.offset + q.size ≤ p.offset

theorem Apart.symm (h : Apart p q) : Apart q p := Or.symm h

def overlay (ps : List Patch) (b : Block n) : Block n :=
  ps.foldl (fun b p ↦ put p.offset p.block b) b

@[simp] theorem overlay_cons : overlay (p :: ps) b = overlay ps (put p.offset p.block b) := rfl

theorem slice_overlay_apart (h : ∀ q ∈ ps, Apart p q) :
    slice (overlay ps b) p.offset p.size = slice b p.offset p.size := by
  induction ps generalizing b with
  | nil => rfl
  | cons q ps ih =>
    have first : Apart p q := h q (by simp)
    rw [overlay_cons, ih fun r hr ↦ h r (List.mem_cons_of_mem q hr)]
    exact slice_put_disjoint first

/-- Patches that are apart from one another can all be read back. -/
theorem slice_overlay_mem (apart : ps.Pairwise Apart) (mem : p ∈ ps) (room : p.offset + p.size ≤ n) :
    slice (overlay ps b) p.offset p.size = p.block := by
  induction ps generalizing b with
  | nil => cases mem
  | cons q ps ih =>
    rw [List.pairwise_cons] at apart
    rw [overlay_cons]
    rcases List.mem_cons.mp mem with rfl | later
    · rw [slice_overlay_apart apart.1, slice_put_inside le_rfl le_rfl room, Nat.sub_self, slice_self]
    · exact ih apart.2 later

end Patch

/-- The `n` bytes of a file from an offset, zero past its end. -/
def window (file : List Byte) (o n : ℕ) : Block n := fun i ↦ file.getD (o + i) 0

theorem window_bytes {n : ℕ} (b : Block n) (rest : List Byte) : window (bytes b ++ rest) 0 n = b := by
  funext i
  have inside : (i : ℕ) < (bytes b).length := by simp
  rw [window, Nat.zero_add, List.getD_eq_getElem?_getD, List.getElem?_append_left inside,
    List.getElem?_eq_getElem inside]
  simp [bytes]

theorem window_drop (file : List Byte) (o k n : ℕ) : window (file.drop o) k n = window file (o + k) n := by
  funext i
  simp only [window, List.getD_eq_getElem?_getD, List.getElem?_drop, Nat.add_assoc]

theorem bytes_window {file : List Byte} {o n : ℕ} (h : o + n ≤ file.length) :
    Block.bytes (window file o n) = (file.drop o).take n := by
  refine List.ext_getElem (by rw [Block.length_bytes, List.length_take, List.length_drop]; omega) fun i hi _ ↦ ?_
  rw [Block.length_bytes] at hi
  rw [List.getElem_take, List.getElem_drop]
  simp only [Block.bytes, List.getElem_ofFn, window]
  exact List.getD_eq_getElem _ _ (by omega)

theorem getD_bytes {n i : ℕ} {b : Block n} : (Block.bytes b).getD i 0 = Block.get b i := by
  by_cases h : i < n
  · rw [Block.get_of_lt h, List.getD_eq_getElem _ _ (by rwa [Block.length_bytes])]
    simp [Block.bytes]
  · rw [List.getD_eq_default _ _ (by rw [Block.length_bytes]; omega), Block.get, dif_neg h]

theorem bytes_put {n m o : ℕ} {b : Block m} {c : Block n} (h : o + m ≤ n) :
    Block.bytes (Block.put o b c) = (Block.bytes c).take o ++ Block.bytes b ++ (Block.bytes c).drop (o + m) := by
  refine List.ext_getElem ?_ fun i hi _ ↦ ?_
  · simp only [Block.length_bytes, List.length_append, List.length_take, List.length_drop]
    omega
  rw [Block.length_bytes] at hi
  simp only [Block.bytes, List.getElem_ofFn, List.getElem_append, List.length_append, List.length_take,
    List.length_ofFn,
    List.getElem_take, List.getElem_drop]
  split_ifs with front inside
  · exact Block.put_outside (.inl (by change i < o; omega))
  · rw [Block.put_inside (by change o ≤ i; omega) (by change i < o + m; omega),
      Block.get_of_lt (by change i - o < m; omega)]
    congr 1
    apply Fin.ext
    change i - o = i - min o n
    omega
  · rw [Block.put_outside (.inr (by change o + m ≤ i; omega))]
    congr 1
    apply Fin.ext
    change i = o + m + (i - (min o n + m))
    omega

/-- The `n` bytes of a number, the least significant first. -/
def little : ℕ → ℕ → List Byte
  | 0, _ => []
  | n + 1, v => BitVec.ofNat 8 v :: little n (v / 256)

/-- The number that bytes stand for, the least significant first. -/
def value (l : List Byte) : ℕ := l.foldr (fun b v ↦ b.toNat + 256 * v) 0

@[simp] theorem length_little (n v : ℕ) : (little n v).length = n := by
  induction n generalizing v with
  | zero => rfl
  | succ n ih => simp [little, ih]

theorem value_little {n v : ℕ} (h : v < 256 ^ n) : value (little n v) = v := by
  induction n generalizing v with
  | zero => simp only [pow_zero, Nat.lt_one_iff] at h; simp [little, value, h]
  | succ n ih =>
    have rest : v / 256 < 256 ^ n := Nat.div_lt_of_lt_mul (by rwa [pow_succ, Nat.mul_comm] at h)
    have tail : value (little n (v / 256)) = v / 256 := ih rest
    have step : value (little (n + 1) v) = v % 256 + 256 * value (little n (v / 256)) := by
      simp [little, value]
    rw [step, tail]
    omega

theorem value_cons (b : Byte) (l : List Byte) : value (b :: l) = b.toNat + 256 * value l := rfl

theorem value_lt (l : List Byte) : value l < 256 ^ l.length := by
  induction l with
  | nil => exact Nat.one_pos
  | cons b l ih =>
    have small := b.isLt
    rw [List.length_cons, value_cons, pow_succ]
    omega

theorem little_value (l : List Byte) : little l.length (value l) = l := by
  induction l with
  | nil => rfl
  | cons b l ih =>
    have small := b.isLt
    have low : BitVec.ofNat 8 (b.toNat + 256 * value l) = b := by
      rw [← BitVec.toNat_inj, BitVec.toNat_ofNat]
      omega
    have high : (b.toNat + 256 * value l) / 256 = value l := by omega
    rw [List.length_cons, value_cons, little, low, high, ih]

/-- A reader of a file: what it yields and what it leaves unread. -/
abbrev Reader := StateT (List Byte) Option

namespace Reader

variable {α β : Type}

def fread (n : ℕ) : Reader (Block n) := fun file ↦
  if n ≤ file.length then some (window file 0 n, file.drop n) else none

/-- Read `n` bytes to the front of a cleared block. -/
def freadInto (n : ℕ) {m : ℕ} : Reader (Block m) := (fun b ↦ put 0 b zeros) <$> fread n

def freadIf (c : Bool) (n : ℕ) : Reader (Block n) := if c then fread n else pure zeros

def require (c : Prop) [Decidable c] : Reader Unit := fun file ↦
  if c then some ((), file) else none

/-- Nothing is left. -/
def eof : Reader Unit := fun file ↦ if file = [] then some ((), []) else none

/-- A number of `n` bytes. -/
def number (n : ℕ) : Reader ℕ := (fun b ↦ value (bytes b)) <$> fread n

/-- `count` numbers of `n` bytes. -/
def numbers (n : ℕ) : ℕ → Reader (List ℕ)
  | 0 => pure []
  | count + 1 => do
    let v ← number n
    let vs ← numbers n count
    pure (v :: vs)

/-- On a file that starts with these bytes, the reader yields `a` and reads no further. -/
def Parses (r : Reader α) (l : List Byte) (a : α) : Prop := ∀ rest, r (l ++ rest) = some (a, rest)

section Parses

variable {r : Reader α} {f : α → Reader β} {l k : List Byte} {a : α} {b : β}

theorem parses_pure : Parses (pure a : Reader α) [] a := fun _ ↦ rfl

theorem Parses.bind (h : Parses r l a) (next : Parses (f a) k b) : Parses (r >>= f) (l ++ k) b := by
  intro rest
  rw [List.append_assoc]
  change (r (l ++ (k ++ rest))).bind (fun p ↦ f p.1 p.2) = some (b, rest)
  rw [h]
  exact next rest

/-- The last step reads nothing. -/
theorem Parses.last (h : Parses r l a) (next : Parses (f a) [] b) : Parses (r >>= f) l b := by
  have whole := Parses.bind h next
  rwa [List.append_nil] at whole

theorem Parses.map (h : Parses r l a) (g : α → β) : Parses (g <$> r) l (g a) := by
  intro rest
  change (r (l ++ rest)).bind (fun p ↦ some (g p.1, p.2)) = some (g a, rest)
  rw [h]
  rfl

theorem parses_fread {n : ℕ} (b : Block n) : Parses (fread n) (bytes b) b := by
  intro rest
  have enough : n ≤ (bytes b ++ rest).length := by simp
  rw [fread, if_pos enough, window_bytes, List.drop_left' (by simp)]

theorem parses_freadInto {n m : ℕ} (b : Block n) :
    Parses (freadInto n) (bytes b) (put 0 b (zeros : Block m)) :=
  (parses_fread b).map _

theorem parses_freadIf {n : ℕ} {c : Bool} (b : Block n) :
    Parses (freadIf c n) (if c then bytes b else []) (if c then b else zeros) := by
  cases c with
  | true => exact parses_fread b
  | false => exact parses_pure

theorem parses_require {c : Prop} [Decidable c] (h : c) : Parses (require c) [] () := fun _ ↦
  if_pos h

theorem parses_number {n v : ℕ} (h : v < 256 ^ n) : Parses (number n) (little n v) v := by
  have block : bytes (fun i : Fin n ↦ (little n v).get (i.cast (length_little n v).symm)) = little n v := by
    unfold bytes
    exact List.ext_get (by simp) (by simp)
  have read := Parses.map (parses_fread (fun i : Fin n ↦
    (little n v).get (i.cast (length_little n v).symm))) (fun b ↦ value (bytes b))
  rwa [block, value_little h] at read

theorem parses_numbers {n : ℕ} {vs : List ℕ} (h : ∀ v ∈ vs, v < 256 ^ n) :
    Parses (numbers n vs.length) (vs.flatMap (little n)) vs := by
  induction vs with
  | nil => exact parses_pure
  | cons v vs ih =>
    have first : Parses (number n) (little n v) v := parses_number (h v (by simp))
    have others := ih fun w hw ↦ h w (List.mem_cons_of_mem v hw)
    exact first.bind (others.last parses_pure)

/-- On exactly these bytes, the reader yields `a`. -/
def Finishes (r : Reader α) (l : List Byte) (a : α) : Prop := r l = some (a, [])

theorem Parses.finishes (h : Parses r l a) : Finishes r l a := by
  have whole := h []
  rwa [List.append_nil] at whole

theorem Parses.before (h : Parses r l a) (next : Finishes (f a) k b) :
    Finishes (r >>= f) (l ++ k) b := by
  change (r (l ++ k)).bind (fun p ↦ f p.1 p.2) = some (b, [])
  rw [h]
  exact next

/-- A step that reads nothing. -/
theorem Parses.skipBefore (h : Parses r [] a) (next : Finishes (f a) k b) : Finishes (r >>= f) k b :=
  Parses.before h next

theorem finishes_pure : Finishes (pure a : Reader α) [] a := rfl

theorem finishes_eof : Finishes eof [] () := rfl

theorem Finishes.bind (h : Finishes r l a) (next : Finishes (f a) [] b) : Finishes (r >>= f) l b := by
  change (r l).bind (fun p ↦ f p.1 p.2) = some (b, [])
  rw [h]
  exact next

end Parses

theorem slice_put_window {file : List Byte} {a n m o k : ℕ} (h : o + k ≤ n) (room : n ≤ m) :
    slice (put 0 (window file a n) (zeros : Block m)) o k = window file (a + o) k := by
  rw [Block.slice_put_inside (Nat.zero_le o) (by omega) (by omega)]
  funext i
  rw [Nat.sub_zero, slice, Block.get_of_lt (by omega), window, window, Nat.add_assoc]

/-- A successful run of the reader consumes `k` bytes. -/
def Advances (r : Reader α) (k : ℕ) : Prop :=
  ∀ file a rest, r file = some (a, rest) → k ≤ file.length ∧ rest = file.drop k

section Advances

variable {r : Reader α} {f : α → Reader β} {file rest : List Byte} {a : α} {b : β} {j k : ℕ}

theorem bind_eq_some : (r >>= f) file = some (b, rest) ↔
    ∃ a middle, r file = some (a, middle) ∧ f a middle = some (b, rest) := by
  change (r file).bind (fun p ↦ f p.1 p.2) = some (b, rest) ↔ _
  rw [Option.bind_eq_some_iff]
  exact ⟨fun ⟨(a, middle), h, k⟩ ↦ ⟨a, middle, h, k⟩, fun ⟨a, middle, h, k⟩ ↦
    ⟨(a, middle), h, k⟩⟩

theorem pure_eq_some {c : α} : (pure a : Reader α) file = some (c, rest) ↔ a = c ∧ file = rest := by
  change some (a, file) = some (c, rest) ↔ _
  simp

theorem map_eq_some {g : α → β} : (g <$> r) file = some (b, rest) ↔
    ∃ a, r file = some (a, rest) ∧ g a = b := by
  change (r file).bind (fun p ↦ some (g p.1, p.2)) = some (b, rest) ↔ _
  rw [Option.bind_eq_some_iff]
  constructor
  · rintro ⟨⟨a, middle⟩, h, k⟩
    simp only [Option.some.injEq, Prod.mk.injEq] at k
    exact ⟨a, k.2 ▸ h, k.1⟩
  · rintro ⟨a, h, rfl⟩
    exact ⟨(a, rest), h, rfl⟩

theorem fread_eq_some {n : ℕ} {block : Block n} : fread n file = some (block, rest) ↔
    n ≤ file.length ∧ block = window file 0 n ∧ rest = file.drop n := by
  unfold fread
  split_ifs with h
  · simp [h, eq_comm]
  · simp [h]

theorem freadInto_eq_some {n m : ℕ} {block : Block m} : freadInto n file = some (block, rest) ↔
    n ≤ file.length ∧ block = put 0 (window file 0 n) zeros ∧ rest = file.drop n := by
  unfold freadInto
  rw [map_eq_some]
  constructor
  · rintro ⟨b, read, rfl⟩
    obtain ⟨long, rfl, rfl⟩ := fread_eq_some.mp read
    exact ⟨long, rfl, rfl⟩
  · rintro ⟨long, rfl, rfl⟩
    exact ⟨_, fread_eq_some.mpr ⟨long, rfl, rfl⟩, rfl⟩

theorem freadIf_eq_some {n : ℕ} {c : Bool} {block : Block n} (h : freadIf c n file = some (block, rest)) :
    block = (if c then window file 0 n else zeros) ∧ rest = file.drop (if c then n else 0) := by
  cases c with
  | true =>
    obtain ⟨-, rfl, rfl⟩ := fread_eq_some.mp h
    exact ⟨rfl, rfl⟩
  | false =>
    obtain ⟨rfl, rfl⟩ := pure_eq_some.mp h
    exact ⟨rfl, rfl⟩

theorem require_eq_some {c : Prop} [Decidable c] {u : Unit} :
    require c file = some (u, rest) ↔ c ∧ rest = file := by
  unfold require
  split_ifs with h
  · simp [h, eq_comm]
  · simp [h]

theorem eof_eq_some {u : Unit} : eof file = some (u, rest) ↔ file = [] ∧ rest = [] := by
  unfold eof
  split_ifs with h
  · simp [h, eq_comm]
  · simp [h]

theorem advances_pure : Advances (pure a : Reader α) 0 := by
  intro file b rest h
  obtain ⟨-, rfl⟩ := pure_eq_some.mp h
  exact ⟨Nat.zero_le _, rfl⟩

theorem Advances.bind (h : Advances r j) (next : ∀ a, Advances (f a) k) :
    Advances (r >>= f) (j + k) := by
  intro file b rest run
  obtain ⟨a, middle, first, second⟩ := bind_eq_some.mp run
  obtain ⟨long, rfl⟩ := h file a middle first
  obtain ⟨more, rfl⟩ := next a _ b rest second
  rw [List.length_drop] at more
  exact ⟨by omega, by rw [List.drop_drop]⟩

theorem advances_fread (n : ℕ) : Advances (fread n) n := by
  intro file b rest h
  obtain ⟨long, -, rfl⟩ := fread_eq_some.mp h
  exact ⟨long, rfl⟩

theorem advances_number (n : ℕ) : Advances (number n) n := by
  intro file v rest h
  obtain ⟨b, read, -⟩ := map_eq_some.mp h
  exact advances_fread n file b rest read

theorem advances_numbers (n count : ℕ) : Advances (numbers n count) (count * n) := by
  induction count with
  | zero =>
    rw [Nat.zero_mul]
    exact advances_pure
  | succ count ih =>
    have size : (count + 1) * n = n + (count * n + 0) := by
      rw [Nat.succ_mul, Nat.add_zero, Nat.add_comm]
    rw [size]
    exact (advances_number n).bind fun _ ↦ ih.bind fun _ ↦ advances_pure

end Advances

end Reader

end Cdj2000Emulator.Library.Bytes
