import Mathlib.Data.List.Forall2
import TraceAtlas.Cbor.Fields
import TraceAtlas.Proofs.Heads

/-!
# Bytes that are read as a whole

`Reads r bytes x` says that a reader takes just these bytes: it reads them as `x` whatever follows,
and it finds anything that stops short of them cut off. Reads are put one behind the other as
readers are (`Reads.seq`), so what is read as a whole is told from the parts it is made of: heads,
scalars, items, and sequences of items.

What is read as a whole is all that a document may hold (`Reads.onlyWhole`): a document that stops
short of it ends too early, and one that goes on behind it is malformed.
-/

namespace TraceAtlas.Cbor

variable {α β σ : Type} {r s f : Reader α} {a b bytes p : List UInt8} {x y : α} {h : Head}
  {depth n : Nat}

/-! ## Inputs that are cut off -/

/-- The flaw of an input of which `read` bytes are there and `size` were to come: it ends, or a text
in it goes on where the input has ended, but not behind what was to come. -/
def Flaw.CutOff (size read : Nat) : Flaw → Prop
  | .eof => True
  | .textPastEnd length left => left ≤ read ∧ read + length ≤ size + left
  | .malformed => False
  | .data => False

namespace Flaw

variable {size size' read : Nat} {flaw : Flaw}

theorem CutOff.mono (hcut : flaw.CutOff size read) (hsize : size ≤ size') :
    flaw.CutOff size' read := by
  cases flaw with
  | textPastEnd length left => exact ⟨hcut.1, Nat.le_trans hcut.2 (Nat.add_le_add_right hsize left)⟩
  | _ => exact hcut

/-- Bytes in front count on both sides. -/
theorem CutOff.shift (hcut : flaw.CutOff size read) (k : Nat) :
    flaw.CutOff (k + size) (k + read) := by
  cases flaw with
  | textPastEnd length left =>
      obtain ⟨hleft, hend⟩ := hcut
      exact ⟨by omega, by omega⟩
  | _ => exact hcut

/-- As long as positions are words of eight bytes, an input that is cut off ends too early. -/
theorem CutOff.toError_eq (hcut : flaw.CutOff size read) (hsize : size < UInt64.size) :
    flaw.toError read = .eof := by
  cases flaw with
  | eof => rfl
  | textPastEnd length left =>
      obtain ⟨hleft, hend⟩ := hcut
      exact if_pos (by omega)
  | malformed => exact hcut.elim
  | data => exact hcut.elim

end Flaw

/-! ## Reading as a whole -/

/-- The reader takes just these bytes and reads them as `x`. -/
structure Reads (r : Reader α) (bytes : List UInt8) (x : α) : Prop where
  whole (rest : List UInt8) : r (bytes ++ rest) = .ok (x, rest)
  cut {p : List UInt8} : p <+: bytes → p ≠ bytes →
    ∃ flaw, r p = .error flaw ∧ flaw.CutOff bytes.length p.length

namespace Reads

theorem nothing (hread : ∀ bs, r bs = .ok (x, bs)) : Reads r [] x where
  whole := hread
  cut hp hne := absurd (List.prefix_nil.mp hp) hne

/-- A reader that takes what another reader takes and then goes on. -/
theorem seq {r : Reader β} {x : β} {y : α} (hr : Reads r a x) (hs : Reads s b y)
    (hflaw : ∀ {bs flaw}, r bs = .error flaw → f bs = .error flaw)
    (hnext : ∀ {bs rest}, r bs = .ok (x, rest) → f bs = s rest) : Reads f (a ++ b) y where
  whole rest := by
    rw [List.append_assoc, hnext (hr.whole _), hs.whole]
  cut {p} hp hne := by
    by_cases hlong : a <+: p
    · -- the input ends in the second part
      obtain ⟨q, rfl⟩ := hlong
      have hq : q ≠ b := fun heq => hne (by rw [heq])
      obtain ⟨flaw, hread, hcut⟩ := hs.cut ((List.prefix_append_right_inj a).mp hp) hq
      refine ⟨flaw, by rw [hnext (hr.whole q), hread], ?_⟩
      rw [List.length_append, List.length_append]
      exact hcut.shift a.length
    · have hshort : p <+: a :=
        (List.prefix_or_prefix_of_prefix hp (List.prefix_append a b)).resolve_right hlong
      obtain ⟨flaw, hread, hcut⟩ := hr.cut hshort fun heq => hlong (heq ▸ List.prefix_rfl)
      refine ⟨flaw, hflaw hread, hcut.mono ?_⟩
      rw [List.length_append]
      exact Nat.le_add_right _ _

/-- A reader that takes what another reader takes and makes something else of it. -/
theorem last {r : Reader β} {x : β} {y : α} (hr : Reads r a x)
    (hflaw : ∀ {bs flaw}, r bs = .error flaw → f bs = .error flaw)
    (hnext : ∀ {bs rest}, r bs = .ok (x, rest) → f bs = .ok (y, rest)) : Reads f a y := by
  have hseq := hr.seq (nothing (r := fun bs => .ok (y, bs)) fun _ => rfl) hflaw hnext
  rwa [List.append_nil] at hseq

theorem bind {r : Reader β} {x : β} {y : α} {next : β × List UInt8 → Except Flaw (α × List UInt8)}
    (hr : Reads r a x) (hnext : Reads (fun bs => next (x, bs)) b y) :
    Reads (fun bs => r bs >>= next) (a ++ b) y := by
  apply hr.seq hnext
  · intro bs flaw hread
    rw [hread]
    rfl
  · intro bs rest hread
    rw [hread]
    rfl

theorem bindLast {r : Reader β} {x : β} {y : α}
    {next : β × List UInt8 → Except Flaw (α × List UInt8)} (hr : Reads r a x)
    (hnext : ∀ bs, next (x, bs) = .ok (y, bs)) : Reads (fun bs => r bs >>= next) a y := by
  have hbind := hr.bind (nothing hnext)
  rwa [List.append_nil] at hbind

/-- A first byte that says how to go on. -/
theorem step {byte : UInt8} (hempty : r [] = .error .eof)
    (hs : Reads (fun bs => r (byte :: bs)) bytes x) : Reads r (byte :: bytes) x where
  whole := hs.whole
  cut {p} hp hne := by
    rcases List.prefix_cons_iff.mp hp with rfl | ⟨q, rfl, hq⟩
    · exact ⟨.eof, hempty, trivial⟩
    · obtain ⟨flaw, hread, hcut⟩ := hs.cut hq fun heq => hne (by rw [heq])
      refine ⟨flaw, hread, ?_⟩
      rw [List.length_cons, List.length_cons, Nat.add_comm, Nat.add_comm q.length]
      exact hcut.shift 1

end Reads

/-! ## Heads -/

theorem reads_number {k : Nat} (hbound : n < 256 ^ k) : Reads (readNumber k) (bigEndian k n) n where
  whole := readNumber_bigEndian hbound
  cut {p} hp hne := by
    have hlength : p.length < k := by
      have hle := hp.length_le
      rw [length_bigEndian] at hle
      refine Nat.lt_of_le_of_ne hle fun heq => hne (hp.eq_of_length ?_)
      rw [heq, length_bigEndian]
    refine ⟨.eof, ?_, trivial⟩
    simp only [readNumber, take, if_neg (Nat.not_le.mpr hlength), Bind.bind, Except.bind]

/-- The first byte of a head says how the argument is to be read off the others, which are taken as
a whole. -/
theorem exists_reads_argument (major : Nat) (hn : n < UInt64.size) :
    ∃ info tail, head major n = UInt8.ofNat (major * 32 + info) :: tail ∧ info < 28 ∧
      Reads (readArgument info) tail (Width.of n, n) := by
  rcases head_cases major hn with ⟨hsmall, hwidth, hhead⟩ | ⟨info, k, hinfo, hbound, hhead⟩
  · refine ⟨n, [], hhead, by omega, .nothing ?_⟩
    intro bs
    rw [hwidth]
    exact if_pos hsmall
  · have hmember : ∀ form ∈ announced, form.1 < 28 := by decide
    refine ⟨info, bigEndian k n, hhead, hmember _ hinfo, (reads_number hbound).last ?_ ?_⟩
    · intro bs flaw hread
      rw [readArgument_announced hinfo, hread]
      rfl
    · intro bs rest hread
      rw [readArgument_announced hinfo, hread]
      rfl

/-- A head that is told by its argument alone. -/
theorem reads_head {major : Nat} (hmajor : major < 8) (hn : n < UInt64.size)
    (make : Width × Nat → Head)
    (hnext : ∀ {byte : UInt8} {info : Nat} {bs : List UInt8}, byte.toNat / 32 = major →
      byte.toNat % 32 = info → info < 28 →
      readHead (byte :: bs) = (readArgument info bs).map fun read => (make read.1, read.2)) :
    Reads readHead (head major n) (make (Width.of n, n)) := by
  obtain ⟨info, tail, hhead, hinfo, hread⟩ := exists_reads_argument major hn
  obtain ⟨hdiv, hmod⟩ := toNat_firstByte major info hmajor (by omega)
  rw [hhead]
  refine .step rfl (hread.last ?_ ?_)
  · intro bs flaw hflaw
    rw [hnext hdiv hmod hinfo, hflaw]
    rfl
  · intro bs rest hrest
    rw [hnext hdiv hmod hinfo, hrest]
    rfl

theorem reads_unsigned (hn : n < UInt64.size) :
    Reads readHead (head 0 n) (.unsigned (Width.of n) n) := by
  apply reads_head (by decide) hn fun argument => .unsigned argument.1 argument.2
  intro byte info bs hdiv hmod _
  simp only [readHead, hdiv, hmod]
  cases readArgument info bs <;> rfl

theorem reads_negative (hn : n < UInt64.size) : Reads readHead (head 1 n) (.negative n) := by
  apply reads_head (by decide) hn fun argument => .negative argument.2
  intro byte info bs hdiv hmod _
  simp only [readHead, hdiv, hmod]
  cases readArgument info bs <;> rfl

theorem ne_indefinite {info : Nat} (hinfo : info < 28) : info ≠ indefinite := by
  unfold indefinite
  omega

theorem reads_array (hn : n < UInt64.size) : Reads readHead (head 4 n) (.array (some n)) := by
  apply reads_head (by decide) hn fun argument => .array (some argument.2)
  intro byte info bs hdiv hmod hinfo
  simp only [readHead, hdiv, hmod, readLength, if_neg (ne_indefinite hinfo)]
  cases readArgument info bs <;> rfl

theorem reads_map (hn : n < UInt64.size) : Reads readHead (head 5 n) (.map (some n)) := by
  apply reads_head (by decide) hn fun argument => .map (some argument.2)
  intro byte info bs hdiv hmod hinfo
  simp only [readHead, hdiv, hmod, readLength, if_neg (ne_indefinite hinfo)]
  cases readArgument info bs <;> rfl

/-- A text may be cut off behind its length: then the length that is left tells how much. -/
theorem reads_text {t : String} (ht : (Utf8.encode t).length < UInt64.size) :
    Reads readHead (head 3 (Utf8.encode t).length ++ Utf8.encode t) (.text t) := by
  obtain ⟨info, tail, hhead, hinfo, hread⟩ := exists_reads_argument 3 ht
  obtain ⟨hdiv, hmod⟩ := toNat_firstByte 3 info (by decide) (by omega)
  -- the content, once its length is known
  have hcontent : Reads (fun bs => if (Utf8.encode t).length ≤ bs.length then
      .ok (bs.take (Utf8.encode t).length, bs.drop (Utf8.encode t).length)
      else .error (.textPastEnd (Utf8.encode t).length bs.length)) (Utf8.encode t)
      (Utf8.encode t) := by
    constructor
    · intro rest
      simp
    · intro p hp hne
      have hshort : p.length < (Utf8.encode t).length :=
        Nat.lt_of_le_of_ne hp.length_le fun heq => hne (hp.eq_of_length heq)
      exact ⟨_, if_neg (Nat.not_le.mpr hshort), Nat.le_refl _, Nat.le_of_eq (Nat.add_comm _ _)⟩
  have hbytes : Reads (readTextBytes info) (tail ++ Utf8.encode t) (Utf8.encode t) := by
    refine hread.seq hcontent ?_ ?_
    · intro bs flaw hflaw
      simp only [readTextBytes, if_neg (ne_indefinite hinfo), hflaw]
      rfl
    · intro bs rest hrest
      simp only [readTextBytes, if_neg (ne_indefinite hinfo), hrest]
      rfl
  rw [hhead, List.cons_append]
  refine .step rfl (hbytes.last ?_ ?_)
  · intro bs flaw hflaw
    simp only [readHead, hdiv, hmod, hflaw]
    rfl
  · intro bs rest hrest
    simp only [readHead, hdiv, hmod, hrest, Bind.bind, Except.bind, Utf8.decode_encode]

/-- The tag that marks self-described data. -/
theorem reads_selfDescribed : Reads readHead Value.selfDescribed .tag := by
  have hnumber : Reads (readNumber 2) [0xd9, 0xf7] 0xd9f7 := reads_number (n := 0xd9f7) (by decide)
  have htag : ∀ bs, readHead (0xd9 :: bs) = (readNumber 2 bs).map fun read => (.tag, read.2) := by
    intro bs
    show (readNumber 2 bs >>= _) >>= _ = _
    cases readNumber 2 bs <;> rfl
  refine .step rfl (hnumber.last ?_ ?_)
  · intro bs flaw hflaw
    rw [htag, hflaw]
    rfl
  · intro bs rest hrest
    rw [htag, hrest]
    rfl

/-! ## Heads behind tags, and scalars -/

theorem reads_untagged (hr : Reads readHead a h) (htag : h ≠ .tag) (depth : Nat) :
    Reads (readUntagged depth) a (h, depth) := by
  refine hr.last ?_ ?_
  · intro bs flaw hflaw
    unfold readUntagged
    rw [hflaw]
  · intro bs rest hrest
    unfold readUntagged
    rw [hrest]
    cases h with
    | tag => exact absurd rfl htag
    | _ => rfl

/-- The tag in front of a document takes one level. -/
theorem reads_document {left : Nat} (hr : Reads (readUntagged depth) a (h, left)) :
    Reads (readUntagged (depth + 1)) (Value.selfDescribed ++ a) (h, left) := by
  refine reads_selfDescribed.seq hr ?_ ?_
  · intro bs flaw hflaw
    unfold readUntagged
    rw [hflaw]
  · intro bs rest hrest
    rw [readUntagged, hrest]

theorem reads_scalar {accept : Head → Option α} {left : Nat}
    (hr : Reads (readUntagged depth) a (h, left)) (haccept : accept h = some x) :
    Reads (readScalar accept depth) a x := by
  refine hr.last ?_ ?_
  · intro bs flaw hflaw
    simp only [readScalar, hflaw]
    rfl
  · intro bs rest hrest
    simp only [readScalar, hrest, bind, Except.bind, haccept]

theorem reads_readText {t : String} (ht : (Utf8.encode t).length < UInt64.size) :
    Reads (readText depth) (Value.text t).bytesOf t :=
  reads_scalar (reads_untagged (reads_text ht) (by simp) depth) rfl

theorem reads_readNatBelow {bound left : Nat} (hn : n < bound)
    (hr : Reads (readUntagged depth) a (.unsigned (Width.of n) n, left)) :
    Reads (readNatBelow bound depth) a n :=
  reads_scalar hr (if_pos hn)

/-- A signed word of eight bytes is written under one of two major types. -/
theorem int64_cases (i : Int64) :
    (∃ n < signedSize, i.toInt = .ofNat n ∧ Int64.ofNat n = i) ∨
      ∃ n < signedSize, i.toInt = .negSucc n ∧ Int64.ofInt (.negSucc n) = i := by
  have hlt := Int64.toInt_lt i
  have hle := Int64.le_toInt i
  have hword := Int64.ofInt_toInt i
  cases hi : i.toInt with
  | ofNat n =>
      rw [hi] at hlt hword
      exact .inl ⟨n, Int.ofNat_lt.mp hlt, rfl, Int64.ofInt_eq_ofNat.symm.trans hword⟩
  | negSucc n =>
      rw [hi] at hle hword
      exact .inr ⟨n, by unfold signedSize; omega, rfl, hword⟩

theorem reads_readInt64 (i : Int64) :
    Reads (readInt64 depth) (Value.int i.toInt).bytesOf i := by
  rcases int64_cases i with ⟨n, hn, hi, hword⟩ | ⟨n, hn, hi, hword⟩
  · rw [hi]
    have hhead := reads_unsigned (Nat.lt_trans hn (by decide))
    refine reads_scalar (reads_untagged hhead (by simp) depth) ?_
    rw [Head.int64?, if_pos hn, hword]
  · rw [hi]
    have hhead := reads_negative (Nat.lt_trans hn (by decide))
    refine reads_scalar (reads_untagged hhead (by simp) depth) ?_
    rw [Head.int64?, if_pos hn, hword]

/-! ## Items -/

/-- The item that the bytes of an integer are read as. -/
def Item.ofInt : Int → Item
  | .ofNat n => .unsigned (Width.of n) n
  | .negSucc n => .negative n

theorem readItem_flaw {range : Range} {bs : List UInt8} {flaw : Flaw}
    (hflaw : readHead bs = .error flaw) : readItem range depth bs = .error flaw := by
  unfold readItem
  rw [hflaw]

theorem reads_item_text {range : Range} {t : String} (ht : (Utf8.encode t).length < UInt64.size) :
    Reads (readItem range depth) (Value.text t).bytesOf (.text t) := by
  refine (reads_text ht).last readItem_flaw ?_
  intro bs rest hrest
  unfold readItem
  rw [hrest]

theorem reads_item_nat {range : Range} (hn : n < UInt64.size) :
    Reads (readItem range depth) (Value.int n).bytesOf (.ofInt n) := by
  refine (reads_unsigned hn).last readItem_flaw ?_
  intro bs rest hrest
  unfold readItem
  rw [hrest]
  rfl

theorem reads_item_int64 (i : Int64) :
    Reads (readItem .word depth) (Value.int i.toInt).bytesOf (.ofInt i.toInt) := by
  rcases int64_cases i with ⟨n, hn, hi, -⟩ | ⟨n, hn, hi, -⟩
  · rw [hi]
    exact reads_item_nat (Nat.lt_trans hn (by decide))
  · rw [hi]
    refine (reads_negative (Nat.lt_trans hn (by decide))).last readItem_flaw ?_
    intro bs rest hrest
    unfold readItem
    rw [hrest]
    exact if_pos (decide_eq_true hn)

theorem Item.int64?_ofInt (i : Int64) : (Item.ofInt i.toInt).int64? = some i := by
  rcases int64_cases i with ⟨n, hn, hi, hword⟩ | ⟨n, hn, hi, hword⟩
  · rw [hi, Item.ofInt, Item.int64?, if_pos hn, hword]
  · rw [hi, Item.ofInt, Item.int64?, if_pos hn, hword]

/-! ## Sequences -/

theorem reads_times {item : Reader α} {parts : List (List UInt8)} {xs : List α}
    (hparts : List.Forall₂ (Reads item) parts xs) :
    Reads (readTimes item xs.length) parts.flatten xs := by
  induction hparts with
  | nil => exact .nothing fun _ => rfl
  | cons hx _ ih => exact hx.bind (ih.bindLast fun _ => rfl)

theorem reads_entry {item : Reader α} (hx : Reads item a x) (hy : Reads item b y) :
    Reads (readEntry item) (a ++ b) (x, y) :=
  hx.bind (hy.bindLast fun _ => rfl)

theorem reads_item_map {range : Range} {entries : List (Value × Value)}
    {items : List (Item × Item)} (hlength : entries.length < UInt64.size)
    (hentries : List.Forall₂ (fun e i => Reads (readItem range depth) e.1.bytesOf i.1 ∧
      Reads (readItem range depth) e.2.bytesOf i.2) entries items) :
    Reads (readItem range (depth + 1)) (Value.map entries).bytesOf (.map items) := by
  have htimes : Reads (readTimes (readEntry (readItem range depth)) items.length)
      (Value.bytesOfEntries entries) items := by
    clear hlength
    induction hentries with
    | nil => exact .nothing fun _ => rfl
    | cons hentry _ ih =>
        exact (reads_entry hentry.1 hentry.2).bind (ih.bindLast fun _ => rfl)
  rw [← hentries.length_eq] at htimes
  have hmap : Reads (fun bs => readTimes (readEntry (readItem range depth)) entries.length bs >>=
      fun read => .ok (.map read.1, read.2)) (Value.bytesOfEntries entries) (Item.map items) :=
    htimes.bindLast fun _ => rfl
  refine (reads_map hlength).seq hmap readItem_flaw ?_
  intro bs rest hrest
  rw [readItem, hrest]
  rfl

/-- The next of the items that are left. -/
theorem reads_element {item : Reader α} (hx : Reads item a x) (n : Nat) :
    Reads (readElement item (some (n + 1))) a (x, some n) :=
  hx.bindLast fun _ => rfl

/-- A state that is taken along from part to part, and told at every place by the parts in front of
it. -/
theorem reads_steps {ι : Type} {step : σ → Reader σ} {part : ι → List UInt8}
    (state : List ι → σ) {done todo : List ι}
    (hstep : ∀ {front back : List ι} {i : ι}, done ++ todo = front ++ i :: back →
      Reads (step (state front)) (part i) (state (front ++ [i]))) :
    Reads (stepTimes step todo.length (state done)) (todo.flatMap part) (state (done ++ todo)) := by
  induction todo generalizing done with
  | nil =>
      rw [List.append_nil]
      exact .nothing fun _ => rfl
  | cons i todo ih =>
      have hrest : Reads (stepTimes step todo.length (state (done ++ [i]))) (todo.flatMap part)
          (state (done ++ [i] ++ todo)) := by
        apply ih
        intro front back j hplace
        apply hstep
        rw [← hplace, List.append_assoc]
        rfl
      rw [List.append_assoc] at hrest
      exact (hstep rfl).bind hrest

/-! ## Documents -/

theorem Reads.readAll_eq (hr : Reads r bytes x) : readAll r bytes = .ok x := by
  have hread := hr.whole []
  rw [List.append_nil] at hread
  unfold readAll
  rw [hread]

/-- Of the bytes that begin like `bytes` none but these are decoded, and they are decoded as `x`. -/
structure OnlyWhole (decode : List UInt8 → Except Error α) (bytes : List UInt8) (x : α) : Prop where
  whole : decode bytes = .ok x
  short {p : List UInt8} : p <+: bytes → p ≠ bytes → decode p = .error .eof
  long {rest : List UInt8} : rest ≠ [] → decode (bytes ++ rest) = .error .malformed

theorem Reads.onlyWhole (hr : Reads r bytes x) (hsize : bytes.length < UInt64.size) :
    OnlyWhole (readAll r) bytes x where
  whole := hr.readAll_eq
  short {p} hp hne := by
    obtain ⟨flaw, hread, hcut⟩ := hr.cut hp hne
    unfold readAll
    rw [hread]
    exact congrArg Except.error (hcut.toError_eq hsize)
  long {rest} hrest := by
    obtain ⟨byte, rest, rfl⟩ := List.exists_cons_of_ne_nil hrest
    unfold readAll
    rw [hr.whole]

end TraceAtlas.Cbor
