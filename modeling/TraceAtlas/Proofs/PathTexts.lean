import TraceAtlas.Proofs.Orderly
import TraceAtlas.Proofs.TableNames

/-!
# Path texts tell containers apart

A path is written without a separator in front of its first key and in front of index keys, so its
text is no plain join. It can be read back all the same if every key is plain (`PlainKey`): seen from
the left, an index key ends at its first closing bracket and a name at the first dot or opening
bracket. The overlay of a container and the table of that overlay are named after the path, and so
they are told apart with the texts (`plainPaths_toldApart`).
-/

namespace TraceAtlas

namespace CanonicalPath

/-- Keys whose end can be seen in a text. -/
inductive PlainKey : String → Prop
  | index {inner : String} (closed : ']' ∉ inner.toList) : PlainKey ("[" ++ inner ++ "]")
  | name {key : String} (nonempty : key ≠ "") (dot : '.' ∉ key.toList)
      (bracket : '[' ∉ key.toList) : PlainKey key

/-- All keys of the path are plain. -/
def Plain (p : CanonicalPath) : Prop := ∀ key ∈ p.keys, PlainKey key

/-! ## Keys behind others -/

/-- The text of keys that stand behind another. -/
def tailText (keys : List String) : List Char := keys.flatMap fun key => (separated key).toList

theorem tailText_cons (key : String) (keys : List String) :
    tailText (key :: keys) = (separated key).toList ++ tailText keys := rfl

theorem toList_separated_index (inner : String) :
    (separated ("[" ++ inner ++ "]")).toList = '[' :: (inner.toList ++ [']']) := by
  have hlast : ('[' :: (inner.toList ++ [']'])).getLast? = some ']' := by
    rw [← List.cons_append, List.getLast?_concat]
  have hindex : isIndex ("[" ++ inner ++ "]") = true := by simp [isIndex, hlast]
  simp [separated, hindex]

theorem toList_separated_name {key : String} (bracket : '[' ∉ key.toList) :
    (separated key).toList = '.' :: key.toList := by
  have hindex : isIndex key = false := by
    unfold isIndex
    cases hkey : key.toList with
    | nil => rfl
    | cons c rest =>
        have hc : c ≠ '[' := by
          rintro rfl
          exact bracket (hkey ▸ List.mem_cons_self)
        simp [hc]
  simp [separated, hindex]

/-- What a text begins with can be cut off in front of the first character of another kind. -/
theorem append_inj_of_kind {p : Char → Bool} {x y s t : List Char} (hx : ∀ c ∈ x, p c = true)
    (hy : ∀ c ∈ y, p c = true) (hs : ∀ c ∈ s.head?, p c = false) (ht : ∀ c ∈ t.head?, p c = false)
    (h : x ++ s = y ++ t) : x = y ∧ s = t := by
  have hcut : ∀ {x s : List Char}, (∀ c ∈ x, p c = true) → (∀ c ∈ s.head?, p c = false) →
      (x ++ s).takeWhile p = x := by
    intro x s hx hs
    rw [List.takeWhile_append_of_pos hx]
    cases s with
    | nil => simp
    | cons c s => simp [hs c rfl]
  have hxy : x = y := by rw [← hcut hx hs, h, hcut hy ht]
  subst hxy
  exact ⟨rfl, List.append_cancel_left h⟩

/-- The characters of plain names. -/
def inName (c : Char) : Bool := c != '.' && c != '['

theorem forall_inName {key : String} (dot : '.' ∉ key.toList) (bracket : '[' ∉ key.toList) :
    ∀ c ∈ key.toList, inName c = true := by
  intro c hc
  have hdot : c ≠ '.' := fun h => dot (h ▸ hc)
  have hbracket : c ≠ '[' := fun h => bracket (h ▸ hc)
  simp [inName, hdot, hbracket]

/-- A plain key can be cut off the text behind it, if that cannot go on with the key. -/
theorem separated_append_inj {key key' : String} {s t : List Char} (h : PlainKey key)
    (h' : PlainKey key') (hs : ∀ c ∈ s.head?, inName c = false)
    (ht : ∀ c ∈ t.head?, inName c = false)
    (htext : (separated key).toList ++ s = (separated key').toList ++ t) : key = key' ∧ s = t := by
  cases h with
  | @index inner closed =>
      rw [toList_separated_index] at htext
      cases h' with
      | @index inner' closed' =>
          rw [toList_separated_index] at htext
          simp only [List.cons_append, List.append_assoc, List.nil_append,
            List.cons_inj_right] at htext
          have hkind : ∀ {inner : String}, ']' ∉ inner.toList →
              ∀ c ∈ inner.toList, (c != ']') = true := by
            intro inner closed c hc
            exact bne_iff_ne.mpr fun h => closed (h ▸ hc)
          obtain ⟨hinner, hrest⟩ := append_inj_of_kind (hkind closed) (hkind closed')
            (by simp) (by simp) htext
          rw [String.toList_inj.mp hinner]
          exact ⟨rfl, (List.cons.inj hrest).2⟩
      | name nonempty' dot' bracket' => simp [toList_separated_name bracket'] at htext
  | name nonempty dot bracket =>
      rw [toList_separated_name bracket] at htext
      cases h' with
      | index closed' => simp [toList_separated_index] at htext
      | name nonempty' dot' bracket' =>
          rw [toList_separated_name bracket', List.cons_append, List.cons_append,
            List.cons_inj_right] at htext
          obtain ⟨hname, hrest⟩ := append_inj_of_kind (forall_inName dot bracket)
            (forall_inName dot' bracket') hs ht htext
          exact ⟨String.toList_inj.mp hname, hrest⟩

/-- The first character behind which a plain key stands. -/
theorem head?_separated {key : String} (h : PlainKey key) (s : List Char) :
    ∃ c, ((separated key).toList ++ s).head? = some c ∧ inName c = false := by
  cases h with
  | index closed => exact ⟨'[', by simp [toList_separated_index], rfl⟩
  | name nonempty dot bracket => exact ⟨'.', by simp [toList_separated_name bracket], rfl⟩

theorem head?_tailText {keys : List String} (h : ∀ key ∈ keys, PlainKey key) :
    ∀ c ∈ (tailText keys).head?, inName c = false := by
  cases keys with
  | nil => simp [tailText]
  | cons key keys =>
      obtain ⟨c, hc, hkind⟩ := head?_separated (h key List.mem_cons_self) (tailText keys)
      rw [tailText_cons, hc]
      simpa using hkind

/-- **Plain keys can be read off the text that they have behind others.** -/
theorem tailText_inj {keys keys' : List String} (h : ∀ key ∈ keys, PlainKey key)
    (h' : ∀ key ∈ keys', PlainKey key) (htext : tailText keys = tailText keys') : keys = keys' := by
  have hne : ∀ {key : String} {rest : List Char}, PlainKey key →
      [] ≠ (separated key).toList ++ rest := by
    intro key rest hkey hnil
    obtain ⟨c, hc, -⟩ := head?_separated hkey rest
    rw [← hnil] at hc
    cases hc
  induction keys generalizing keys' with
  | nil =>
      cases keys' with
      | nil => rfl
      | cons key' keys' => exact absurd htext (hne (h' key' List.mem_cons_self))
  | cons key keys ih =>
      cases keys' with
      | nil => exact absurd htext.symm (hne (h key List.mem_cons_self))
      | cons key' keys' =>
          rw [List.forall_mem_cons] at h h'
          rw [tailText_cons, tailText_cons] at htext
          obtain ⟨rfl, hrest⟩ := separated_append_inj h.1 h'.1 (head?_tailText h.2)
            (head?_tailText h'.2) htext
          rw [ih h.2 h'.2 hrest]

/-! ## Whole paths -/

/-- The text of a path as it would stand behind another key: a name at its beginning gets the dot
that it does not have there. -/
def led : List Char → List Char
  | [] => []
  | c :: rest => if c = '[' then c :: rest else '.' :: c :: rest

theorem led_text {p : CanonicalPath} (h : p.Plain) : led p.text.toList = tailText p.keys := by
  obtain ⟨keys⟩ := p
  cases keys with
  | nil => rfl
  | cons first rest =>
      have htext : (text ⟨first :: rest⟩).toList = first.toList ++ tailText rest := by
        simp [text, tailText, List.flatMap_map]
      rw [htext, tailText_cons]
      cases h first List.mem_cons_self with
      | index closed => simp [toList_separated_index, led]
      | name nonempty dot bracket =>
          rw [toList_separated_name bracket]
          cases hfirst : first.toList with
          | nil => exact absurd (String.toList_eq_nil_iff.mp hfirst) nonempty
          | cons c cs =>
              have hc : c ≠ '[' := by
                rintro rfl
                exact bracket (hfirst ▸ List.mem_cons_self)
              simp [led, hc]

/-- **Paths of plain keys are told apart by their texts.** -/
theorem text_inj {p q : CanonicalPath} (hp : p.Plain) (hq : q.Plain) :
    p.text = q.text ↔ p.keys = q.keys := by
  constructor
  · intro htext
    exact tailText_inj hp hq (by rw [← led_text hp, htext, led_text hq])
  · intro hkeys
    rw [text, text, hkeys]

end CanonicalPath

/-! ## Overlays of containers -/

namespace Atlas

variable {σ : Type} {a b : Atlas σ} {name n : String} {space : AddressSpace}
  {r : Except SpaceError (Option AddressSpace)}

/-- An overlay that is answered is filed. -/
theorem Overlaid.find?_given (h : Overlaid a name r b) (given : r = .ok (some space)) :
    b.trace.directory.find? name = some space := by
  cases h with
  | refused nothing => exact absurd given (nothing space)
  | found found =>
      cases given
      exact found
  | minted found =>
      cases given
      exact found

/-- What is filed already stays filed. -/
theorem Overlaid.find?_mono (h : Overlaid a name r b)
    (kept : a.trace.directory.find? n = some space) :
    b.trace.directory.find? n = some space := by
  cases h with
  | refused nothing idle => exact (idle.find?_eq n).trans kept
  | found found idle => exact (idle.find?_eq n).trans kept
  | minted found minted =>
      exact (minted.idle.find?_eq n).trans
        ((Directory.extends_mint minted.fresh _).find? n space kept)

theorem Overlaid.filed (h : Overlaid a name r b) (filed : a.trace.directory.Filed) :
    b.trace.directory.Filed := by
  intro n space hfind
  cases h with
  | refused nothing idle => exact filed n space ((idle.find?_eq n).symm.trans hfind)
  | found found idle => exact filed n space ((idle.find?_eq n).symm.trans hfind)
  | minted found minted =>
      exact filed.mint name _ n space ((minted.idle.find?_eq n).symm.trans hfind)

end Atlas

open CanonicalPath in
/-- **Containers are known by the texts of their paths,** if all keys are plain, and so are their
overlays and the tables of these. The second overlay is asked for in any atlas whose directory still
has the first one and files spaces under their names. -/
theorem plainPaths_toldApart {p q : CanonicalPath} (hp : p.Plain) (hq : q.Plain) :
    (p.text = q.text ↔ p.keys = q.keys) ∧
      ∀ (σ τ : Type) (a : Atlas σ) (b : Atlas τ) (c d : ObjectRef) (s t : AddressSpace),
        c.path = p → d.path = q → (a.overlay c.path.text).1 = .ok (some s) →
        b.trace.directory.find? c.path.text =
          (a.overlay c.path.text).2.trace.directory.find? c.path.text →
        b.trace.directory.Filed → (b.overlay d.path.text).1 = .ok (some t) →
        (s = t ↔ p.keys = q.keys) ∧
          ∀ manager context frame,
            tableName manager s context frame = tableName manager t context frame ↔
              p.keys = q.keys := by
  refine ⟨text_inj hp hq, ?_⟩
  rintro σ τ a b c d s t rfl rfl givenFirst kept filed givenSecond
  have hsecond := Atlas.overlay_spec b d.path.text
  rw [(Atlas.overlay_spec a c.path.text).find?_given givenFirst] at kept
  have hfound := hsecond.find?_given givenSecond
  have hs : s.name = c.path.text := filed _ s kept
  have ht : t.name = d.path.text := hsecond.filed filed _ t hfound
  have hsame : c.path.text = d.path.text → s = t := by
    intro htext
    have hstays := hsecond.find?_mono kept
    rw [htext, hfound] at hstays
    exact (Option.some.inj hstays).symm
  have hnames : s.name = t.name ↔ c.path.keys = d.path.keys := by
    rw [hs, ht, text_inj hp hq]
  refine ⟨⟨?_, ?_⟩, ?_⟩
  · rintro rfl
    exact hnames.mp rfl
  · exact fun hkeys => hsame ((text_inj hp hq).mpr hkeys)
  · intro manager context frame
    constructor
    · exact fun htable => hnames.mp (tableName_eq_iff.mp htable).1
    · intro hkeys
      rw [hsame ((text_inj hp hq).mpr hkeys)]

open Atlas CanonicalPath in
/-- A name and an index key with the same letters lead to two overlays. -/
theorem plainPaths_toldApart_bracketed :
    let p : CanonicalPath := ⟨["Threads", "[1]", "Registers"]⟩
    let q : CanonicalPath := ⟨["Threads", "[1]", "[Registers]"]⟩
    let a := (start { name := "Memory" } ({ name := "MemorySpaces" } : MemoryTable) {}).2
    let b := (a.overlay p.text).2
    p.Plain ∧ q.Plain ∧ b.trace.directory.Filed ∧
      ∃ s t, (a.overlay p.text).1 = .ok (some s) ∧ (b.overlay q.text).1 = .ok (some t) ∧
        p.text ≠ q.text ∧ s ≠ t ∧ ∀ manager context frame,
          tableName manager s context frame ≠ tableName manager t context frame := by
  intro p q a b
  have hthreads : PlainKey "Threads" := .name (by decide) (by decide) (by decide)
  have hone : PlainKey "[1]" := @PlainKey.index "1" (by decide)
  have hp : p.Plain := by
    have hlast : PlainKey "Registers" := .name (by decide) (by decide) (by decide)
    simp [p, Plain, hthreads, hone, hlast]
  have hq : q.Plain := by
    have hlast : PlainKey "[Registers]" := @PlainKey.index "Registers" (by decide)
    simp [q, Plain, hthreads, hone, hlast]
  have hfiled : b.trace.directory.Filed := by
    have hstart : a.trace.directory = .standard := by decide +kernel
    exact (overlay_spec a p.text).filed (hstart ▸ Directory.filed_standard)
  have hfirst : (a.overlay p.text).1 =
      .ok (some ⟨100, "Threads[1].Registers", .register, some "register"⟩) := by decide +kernel
  have hsecond : (b.overlay q.text).1 =
      .ok (some ⟨101, "Threads[1][Registers]", .register, some "register"⟩) := by decide +kernel
  have hkeys : p.keys ≠ q.keys := by decide
  obtain ⟨htexts, hspaces⟩ := plainPaths_toldApart hp hq
  obtain ⟨hspace, htable⟩ :=
    hspaces _ _ a b ⟨1, p⟩ ⟨2, q⟩ _ _ rfl rfl hfirst rfl hfiled hsecond
  exact ⟨hp, hq, hfiled, _, _, hfirst, hsecond, fun h => hkeys (htexts.mp h),
    fun h => hkeys (hspace.mp h), fun _ _ _ h => hkeys ((htable _ _ _).mp h)⟩

end TraceAtlas
