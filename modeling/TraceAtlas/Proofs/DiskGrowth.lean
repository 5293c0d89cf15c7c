import TraceAtlas.Proofs.SortedMap
import TraceAtlas.Table.Disk

/-!
# Disks keep their directories

A path is followed through directories only. A disk that has at least the directories of another
therefore leads every path that the other can follow to the same place, and has nothing left to
make where the other has made directories. Writing a file keeps all directories (`update_eq_ok`),
and so does making more of them (`Grows.of_makeFrom`).
-/

namespace TraceAtlas

theorem bind_eq_ok {ε α β : Type} {x : Except ε α} {f : α → Except ε β} {b : β} :
    (x >>= f) = .ok b ↔ ∃ a, x = .ok a ∧ f a = .ok b := by
  cases x <;> simp [bind, Except.bind]

theorem bind_eq_error {ε α β : Type} {x : Except ε α} {f : α → Except ε β} {e : ε} :
    (x >>= f) = .error e ↔ x = .error e ∨ ∃ a, x = .ok a ∧ f a = .error e := by
  cases x <;> simp [bind, Except.bind]

namespace Disk

/-- All directories of `d` are directories of `e`. -/
def Grows (d e : Disk) : Prop := ∀ place, d.node? place = some .directory → e.node? place =
    some .directory

theorem Grows.refl (d : Disk) : Grows d d := fun _ h => h

theorem Grows.trans {d e f : Disk} (h : Grows d e) (h' : Grows e f) : Grows d f :=
  fun place hplace => h' place (h place hplace)

/-! ## What stands at a place after a write -/

theorem node?_insert (d : Disk) {place : Place} (hplace : place ≠ []) (node : DiskNode)
    (p : Place) :
    node? ⟨d.nodes.insert place node⟩ p = if p = place then some node else d.node? p := by
  cases p with
  | nil => rw [if_neg hplace.symm]; rfl
  | cons segment p => exact SortedMap.get?_insert d.nodes place (segment :: p) node

theorem ne_nil_of_node? {d : Disk} {place : Place} (h : d.node? place ≠ some .directory) : place ≠
    [] := by
  rintro rfl
  exact h rfl

/-- Where something else than a directory is replaced, no directory goes. -/
theorem Grows.of_insert {d : Disk} {place : Place} (h : d.node? place ≠ some .directory)
    (node : DiskNode) :
    Grows d ⟨d.nodes.insert place node⟩ := by
  intro p hp
  rw [node?_insert d (ne_nil_of_node? h), if_neg, hp]
  rintro rfl
  exact h hp

/-! ## Paths -/

theorem Grows.follow {d e : Disk} (h : Grows d e) {place q : Place} {segments : List String}
    (hfollow : d.follow place segments = .ok q) : e.follow place segments = .ok q := by
  induction segments generalizing place with
  | nil => exact hfollow
  | cons segment rest ih =>
      unfold Disk.follow at hfollow ⊢
      -- only directories on the way are looked at, never the last place
      split at hfollow
      · next hskip =>
          rw [if_pos hskip]
          exact ih hfollow
      · next hskip =>
          rw [if_neg hskip]
          split at hfollow
          · next hup =>
              rw [if_pos hup]
              exact ih hfollow
          · next hup =>
              rw [if_neg hup]
              split at hfollow
              · cases hfollow
              · next hlength =>
                  rw [if_neg hlength]
                  split at hfollow
                  · next hlast =>
                      rw [if_pos hlast]
                      exact hfollow
                  · next hlast =>
                      rw [if_neg hlast]
                      split at hfollow
                      · cases hfollow
                      · cases hfollow
                      · next hdirectory =>
                          rw [h _ hdirectory]
                          exact ih hfollow

theorem locate_eq_ok {d : Disk} {path : String} {place : Place} :
    d.locate path = .ok place ↔
      ∃ segments, checkPath path = .ok segments ∧ d.follow [] segments = .ok place := by
  unfold locate
  rw [bind_eq_ok]

theorem Grows.locate {d e : Disk} (h : Grows d e) {path : String} {place : Place}
    (hlocate : d.locate path = .ok place) : e.locate path = .ok place := by
  obtain ⟨segments, hsegments, hfollow⟩ := locate_eq_ok.mp hlocate
  exact locate_eq_ok.mpr ⟨segments, hsegments, h.follow hfollow⟩

/-! ## Files -/

theorem read_eq_ok {d : Disk} {path : String} {content : List UInt8} :
    d.read path = .ok content ↔
      ∃ place, d.locate path = .ok place ∧ d.node? place = some (.file content) := by
  unfold read
  rw [bind_eq_ok]
  refine exists_congr fun place => and_congr_right fun _ => ?_
  cases d.node? place with
  | none => simp
  | some node => cases node <;> simp

/-- A change of a file makes its new content of the old one, or of nothing if there was no file. -/
theorem update_eq_ok {d e : Disk} {path : String} {change : List UInt8 → List UInt8}
    (h : d.update path change = .ok e) :
    Grows d e ∧ ∃ content, e.read path = .ok (change content) ∧
      (d.read path = .ok content ∨ d.isFresh path = .ok true ∧ content = []) := by
  unfold update at h
  obtain ⟨place, hlocate, h⟩ := bind_eq_ok.mp h
  have hwritten : ∀ content, d.node? place ≠ some .directory →
      Grows d ⟨d.nodes.insert place (.file content)⟩ ∧
        read ⟨d.nodes.insert place (.file content)⟩ path = .ok content := by
    intro content hnode
    have hgrows := Grows.of_insert hnode (.file content)
    refine ⟨hgrows, read_eq_ok.mpr ⟨place, hgrows.locate hlocate, ?_⟩⟩
    rw [node?_insert d (ne_nil_of_node? hnode), if_pos rfl]
  split at h
  · next hnone =>
      cases h
      obtain ⟨hgrows, hread⟩ := hwritten (change []) (by simp [hnone])
      refine ⟨hgrows, [], hread, .inr ⟨?_, rfl⟩⟩
      simp [isFresh, hlocate, hnone]
  · cases h
  · next content hfile =>
      cases h
      obtain ⟨hgrows, hread⟩ := hwritten (change content) (by simp [hfile])
      exact ⟨hgrows, content, hread, .inl (read_eq_ok.mpr ⟨place, hlocate, hfile⟩)⟩

/-- A file can be changed wherever no directory stands. -/
theorem exists_update {d : Disk} {path : String} {place : Place}
    (hlocate : d.locate path = .ok place) (hnode : d.node? place ≠ some .directory)
    (change : List UInt8 → List UInt8) : ∃ e, d.update path change = .ok e := by
  unfold update
  simp only [hlocate, bind, Except.bind]
  split
  · exact ⟨_, rfl⟩
  · next hdirectory => exact absurd hdirectory hnode
  · exact ⟨_, rfl⟩

theorem isFresh_of_read {d : Disk} {path : String} {content : List UInt8}
    (h : d.read path = .ok content) : d.isFresh path = .ok content.isEmpty := by
  obtain ⟨place, hlocate, hfile⟩ := read_eq_ok.mp h
  simp [isFresh, hlocate, hfile]

/-! ## Directories -/

theorem Grows.of_makeFrom {d e : Disk} {place : Place} {segments : List String}
    {r : Except IoFault Unit}
    (h : d.makeFrom place segments = (r, e)) : Grows d e := by
  induction segments generalizing d place with
  | nil =>
      cases h
      exact .refl _
  | cons segment rest ih =>
      unfold makeFrom at h
      split at h
      · exact ih h
      · split at h
        · exact ih h
        · split at h
          · cases h
            exact .refl _
          · split at h
            · next hnone => exact (Grows.of_insert (by simp [hnone]) .directory).trans (ih h)
            · exact ih h
            · cases h
              exact .refl _

/-- Directories that have been made need not be made again. -/
theorem makeFrom_of_grows {d e f : Disk} {place : Place} {segments : List String}
    (h : d.makeFrom place segments = (.ok (), e)) (grows : Grows e f) :
    f.makeFrom place segments = (.ok (), f) := by
  induction segments generalizing d place with
  | nil => rfl
  | cons segment rest ih =>
      unfold makeFrom at h ⊢
      split at h
      · next hskip =>
          rw [if_pos hskip]
          exact ih h
      · next hskip =>
          rw [if_neg hskip]
          split at h
          · next hup =>
              rw [if_pos hup]
              exact ih h
          · next hup =>
              rw [if_neg hup]
              split at h
              · cases h
              · next hlength =>
                  rw [if_neg hlength]
                  split at h
                  · -- the directory that was missing has been made
                    have hmade : node? ⟨d.nodes.insert (place ++ [segment]) .directory⟩ (place ++
                        [segment]) = some .directory := by
                      rw [node?_insert d (by simp), if_pos rfl]
                    rw [grows _ (Grows.of_makeFrom h _ hmade)]
                    exact ih h
                  · next hthere =>
                      rw [grows _ (Grows.of_makeFrom h _ hthere)]
                      exact ih h
                  · cases h

theorem makeDirectories_of_grows {d e f : Disk} {path : String}
    (h : d.makeDirectories path = (.ok (), e)) (grows : Grows e f) :
    f.makeDirectories path = (.ok (), f) := by
  unfold makeDirectories at h ⊢
  cases hsegments : checkPath path with
  | error fault =>
      rw [hsegments] at h
      cases h
  | ok segments =>
      rw [hsegments] at h
      exact makeFrom_of_grows h grows

end Disk
end TraceAtlas
