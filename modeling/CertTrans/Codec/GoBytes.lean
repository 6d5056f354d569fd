import Mathlib.Data.Vector.Defs
import CertTrans.Codec.Bytes

/-!
Go's byte I/O as a binary codec written in Go uses it: a `bytes.Reader` read
through `Read` and `io.ReadFull`, errors compared with `io.EOF`, and `copy`
into a preallocated slice.

A reader is a computation over the bytes not read yet that may fail with a Go
error.  A failure does not give back the bytes it consumed, as a
`bytes.Reader` does not, so the state is kept under the error.  `exec` runs a
reader on an input; the `exec_*` lemmas evaluate the primitives on inputs of
a given shape and take binds apart, so a decoder's proofs never unfold them.
-/

namespace CertTrans.Codec

inductive GoError where
  | eof
  | unexpectedEOF
  | new (text : String)
deriving DecidableEq, Repr

/-- `err.Error()`, the text that `%v` prints. -/
def GoError.error : GoError → String
  | .eof => "EOF"
  | .unexpectedEOF => "unexpected EOF"
  | .new text => text

abbrev GoReader := ExceptT GoError (StateM (List UInt8))

namespace GoReader

variable {α β : Type}

def exec (x : GoReader α) (input : List UInt8) : Except GoError α × List UInt8 :=
  (x.run.run input).run

@[simp] theorem exec_pure (a : α) (input : List UInt8) :
    (pure a : GoReader α).exec input = (.ok a, input) := rfl

@[simp] theorem exec_throw (e : GoError) (input : List UInt8) :
    (throw e : GoReader α).exec input = (.error e, input) := rfl

theorem exec_bind (x : GoReader α) (f : α → GoReader β) (input : List UInt8) :
    (x >>= f).exec input =
      match x.exec input with
      | (.ok a, mid) => (f a).exec mid
      | (.error e, mid) => (.error e, mid) := by
  simp only [exec, ExceptT.run_bind, StateT.run_bind]
  rcases x.run.run input with ⟨e | a, mid⟩ <;> rfl

theorem exec_bind_of_ok {x : GoReader α} {input mid : List UInt8} {a : α}
    (h : x.exec input = (.ok a, mid)) (f : α → GoReader β) :
    (x >>= f).exec input = (f a).exec mid := by
  rw [exec_bind, h]

theorem exec_bind_of_error {x : GoReader α} {input mid : List UInt8} {e : GoError}
    (h : x.exec input = (.error e, mid)) (f : α → GoReader β) :
    (x >>= f).exec input = (.error e, mid) := by
  rw [exec_bind, h]

theorem exec_bind_congr {x x' : GoReader α} {input input' : List UInt8}
    (h : x.exec input = x'.exec input') (f : α → GoReader β) :
    (x >>= f).exec input = (x' >>= f).exec input' := by
  rw [exec_bind, exec_bind, h]

theorem exec_bind_eq_ok {x : GoReader α} {f : α → GoReader β} {input rest : List UInt8} {b : β}
    (h : (x >>= f).exec input = (.ok b, rest)) :
    ∃ a mid, x.exec input = (.ok a, mid) ∧ (f a).exec mid = (.ok b, rest) := by
  rw [exec_bind] at h
  rcases hx : x.exec input with ⟨e | a, mid⟩
  · rw [hx] at h
    cases h
  · rw [hx] at h
    exact ⟨a, mid, rfl, h⟩

theorem exec_map (f : α → β) (x : GoReader α) (input : List UInt8) :
    (f <$> x).exec input =
      match x.exec input with
      | (.ok a, mid) => (.ok (f a), mid)
      | (.error e, mid) => (.error e, mid) := by
  rw [← bind_pure_comp, exec_bind]
  rcases x.exec input with ⟨e | a, mid⟩ <;> rfl

theorem exec_map_of_ok {x : GoReader α} {input mid : List UInt8} {a : α}
    (h : x.exec input = (.ok a, mid)) (f : α → β) : (f <$> x).exec input = (.ok (f a), mid) := by
  rw [exec_map, h]

theorem exec_tryCatch (x : GoReader α) (handle : GoError → GoReader α) (input : List UInt8) :
    (tryCatch x handle).exec input =
      match x.exec input with
      | (.ok a, mid) => (.ok a, mid)
      | (.error e, mid) => (handle e).exec mid := by
  simp only [exec, ExceptT.run_tryCatch, StateT.run_bind]
  rcases x.run.run input with ⟨e | a, mid⟩ <;> rfl

@[simp] theorem exec_get (input : List UInt8) :
    (get : GoReader (List UInt8)).exec input = (.ok input, input) := rfl

@[simp] theorem exec_set (s input : List UInt8) : (set s : GoReader Unit).exec input = (.ok (), s) :=
  rfl

/-- `fmt.Errorf(context + "%v", err)` around a read: its error, with `context`
before the error's text. -/
def withContext (context : String) (x : GoReader α) : GoReader α :=
  tryCatch x fun e => throw (.new (context ++ e.error))

theorem exec_withContext_of_ok {x : GoReader α} {input mid : List UInt8} {a : α}
    (h : x.exec input = (.ok a, mid)) (context : String) :
    (withContext context x).exec input = (.ok a, mid) := by
  rw [withContext, exec_tryCatch, h]

theorem exec_withContext_of_error {x : GoReader α} {input mid : List UInt8} {e : GoError}
    (h : x.exec input = (.error e, mid)) (context : String) :
    (withContext context x).exec input = (.error (.new (context ++ e.error)), mid) := by
  rw [withContext, exec_tryCatch, h]
  rfl

/-- `r.Read(p)` on a `bytes.Reader`, with `len(p) = n`: at the end of the
input it answers `io.EOF`, even for an empty `p`; otherwise it copies the next
bytes, as many as `p` holds and the input has. -/
def read (n : ℕ) : GoReader (List UInt8) := do
  match ← get with
  | [] => throw .eof
  | input =>
    set (input.drop n)
    pure (input.take n)

/-- `io.ReadFull(r, buf)` with `len(buf) = n`, as `binary.Read` fills a value
of fixed size: the next `n` bytes, or `io.EOF` if none is left and
`io.ErrUnexpectedEOF` if fewer than `n` are, having consumed them. -/
def readFull (n : ℕ) : GoReader (List.Vector UInt8 n) := do
  let input ← get
  if h : n ≤ input.length then
    set (input.drop n)
    pure ⟨input.take n, List.length_take_of_le h⟩
  else
    set ([] : List UInt8)
    throw (if input = [] then .eof else .unexpectedEOF)

/-- `binary.Read(r, binary.BigEndian, &v)` for an unsigned `v` of `n` bytes. -/
def binaryRead (n : ℕ) : GoReader ℕ := do
  let buf ← readFull n
  pure (decodeBE buf.toList)

@[simp] theorem exec_read_nil (n : ℕ) : (read n).exec [] = (.error .eof, []) := rfl

theorem exec_read_cons (n : ℕ) (b : UInt8) (rest : List UInt8) :
    (read n).exec (b :: rest) = (.ok ((b :: rest).take n), (b :: rest).drop n) := rfl

theorem exec_read_append {n : ℕ} {xs : List UInt8} (hxs : xs.length = n) {rest : List UInt8}
    (hne : xs ++ rest ≠ []) : (read n).exec (xs ++ rest) = (.ok xs, rest) := by
  obtain ⟨b, input, hinput⟩ := List.exists_cons_of_ne_nil hne
  rw [hinput, exec_read_cons, ← hinput, List.take_left' hxs, List.drop_left' hxs]

theorem exec_read_eq_ok {n : ℕ} {input data rest : List UInt8}
    (h : (read n).exec input = (.ok data, rest)) :
    input ≠ [] ∧ data = input.take n ∧ rest = input.drop n := by
  cases input with
  | nil => cases h
  | cons b input =>
    rw [exec_read_cons] at h
    cases h
    exact ⟨List.cons_ne_nil b input, rfl, rfl⟩

theorem exec_readFull_append {n : ℕ} {xs : List UInt8} (hxs : xs.length = n)
    (rest : List UInt8) : (readFull n).exec (xs ++ rest) = (.ok ⟨xs, hxs⟩, rest) := by
  have hle : n ≤ (xs ++ rest).length := by simp [hxs]
  rw [readFull, exec_bind_of_ok (exec_get _), dif_pos hle, exec_bind_of_ok (exec_set _ _)]
  simp only [List.take_left' hxs, List.drop_left' hxs]
  rfl

theorem exec_readFull_of_lt {n : ℕ} {input : List UInt8} (h : input.length < n) :
    (readFull n).exec input = (.error (if input = [] then .eof else .unexpectedEOF), []) := by
  rw [readFull, exec_bind_of_ok (exec_get _), dif_neg (Nat.not_le.mpr h), exec_bind_of_ok (exec_set _ _), exec_throw]

theorem exec_readFull_eq_ok {n : ℕ} {input rest : List UInt8} {buf : List.Vector UInt8 n}
    (h : (readFull n).exec input = (.ok buf, rest)) : input = buf.toList ++ rest := by
  by_cases hle : n ≤ input.length
  · have hsplit := List.take_append_drop n input
    rw [← hsplit, exec_readFull_append (List.length_take_of_le hle)] at h
    cases h
    exact hsplit.symm
  · rw [exec_readFull_of_lt (Nat.lt_of_not_le hle)] at h
    cases h

theorem exec_binaryRead_append {n : ℕ} {xs : List UInt8} (hxs : xs.length = n)
    (rest : List UInt8) : (binaryRead n).exec (xs ++ rest) = (.ok (decodeBE xs), rest) := by
  rw [binaryRead, exec_bind_of_ok (exec_readFull_append hxs rest)]
  rfl

theorem exec_binaryRead_eq_ok {n : ℕ} {input rest : List UInt8} {v : ℕ}
    (h : (binaryRead n).exec input = (.ok v, rest)) :
    ∃ xs, xs.length = n ∧ input = xs ++ rest ∧ v = decodeBE xs := by
  obtain ⟨buf, mid, hbuf, hpure⟩ := exec_bind_eq_ok h
  cases hpure
  exact ⟨buf.toList, buf.toList_length, exec_readFull_eq_ok hbuf, rfl⟩

theorem exec_binaryRead_of_lt {n : ℕ} {input : List UInt8} (h : input.length < n) :
    (binaryRead n).exec input = (.error (if input = [] then .eof else .unexpectedEOF), []) := by
  rw [binaryRead, exec_bind_of_error (exec_readFull_of_lt h)]

end GoReader

section Slices

variable {α : Type}

/-- `copy(buf[lo:hi], src)`: the first bytes of `src`, as many as the window
from `lo` to `hi` holds, overwrite `buf` from `lo` on. -/
def copySlice (buf : List α) (lo hi : ℕ) (src : List α) : List α :=
  buf.take lo ++ src.take (hi - lo) ++ buf.drop (lo + min (hi - lo) src.length)

theorem copySlice_append (pre mid post src : List α) (hmid : mid.length = src.length) :
    copySlice (pre ++ mid ++ post) pre.length (pre.length + src.length) src =
      pre ++ src ++ post := by
  have hpost : (pre ++ mid ++ post).drop (pre.length + src.length) = post := by
    rw [← hmid, ← List.length_append, List.drop_left]
  have hpre : (pre ++ mid ++ post).take pre.length = pre := by
    rw [List.append_assoc, List.take_left]
  rw [copySlice, Nat.add_sub_cancel_left, Nat.min_self, hpost, List.take_length, hpre]

theorem copySlice_replicate [Zero α] {written src : List α} {lo hi k : ℕ}
    (hlo : written.length = lo) (hhi : lo + src.length = hi) (hk : src.length ≤ k) :
    copySlice (written ++ List.replicate k 0) lo hi src =
      written ++ src ++ List.replicate (k - src.length) 0 := by
  have hsplit : List.replicate k (0 : α) =
      List.replicate src.length 0 ++ List.replicate (k - src.length) 0 := by
    rw [List.replicate_append_replicate, Nat.add_sub_cancel' hk]
  rw [hsplit, ← List.append_assoc, ← hhi, ← hlo, copySlice_append _ _ _ _ List.length_replicate]

end Slices

end CertTrans.Codec
