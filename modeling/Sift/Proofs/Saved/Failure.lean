import Sift.Proofs.Saved.Steps

/-!
# What a failed save leaves

A query is saved in the store first, then its record is written to its file, then the files that are
not needed any more are removed, and each of the last two steps can fail.
`FolderStore.save_error_inv` says what has been done then: `FolderStore.LeftByFailure` holds of what
is left, so the records are those of a save that succeeds, while the index and the files are as
before unless the record could be written. `FolderStore.History.save_error` is the result that
nothing at all has changed exactly if the store held the query as it is saved already.
-/

namespace Sift

/-! ### Records under their own ids -/

namespace Store

variable {store : Store}

/-- Whether every record stands under its own id. -/
def Keyed (store : Store) : Prop :=
  ∀ id query, store.get? id = some query → query.id = id

namespace Keyed

theorem insert (h : store.Keyed) (query : SavedQuery) :
  (store.insert query).Keyed
  := by
  intro id other hother
  rw [get?, Store.insert, Table.get?_insert] at hother
  split at hother
  case isTrue hid =>
    cases hother
    exact hid
  case isFalse => exact h id other hother

theorem upsert (h : store.Keyed) (newId : String) (query : SavedQuery) :
  (store.upsert newId query).store.Keyed
  := by
  intro id other hother
  rw [get?_upsert_eq] at hother
  split at hother
  case isTrue hid =>
    cases hother
    exact hid
  case isFalse =>
    split at hother
    case isTrue => cases hother
    case isFalse => exact h id other hother

theorem delete (h : store.Keyed) (id : String) :
  (store.delete id).2.Keyed
  := by
  intro other query hquery
  exact h other query (get?_of_get?_delete hquery)

/-- The record that is evicted is another one, and it was there. -/
theorem evicted_inv (h : store.Keyed) {newId : String} {query : SavedQuery} {rival : String}
    (hrival : (store.upsert newId query).evicted = some rival) :
  rival ≠ (store.upsert newId query).query.id ∧ ∃ holder, store.get? rival = some holder
  := by
  obtain ⟨holder, hfind, rfl⟩ := Option.map_eq_some_iff.mp hrival
  obtain ⟨id, hholder⟩ := mem_values_iff.mp (List.mem_of_find?_eq_some hfind)
  have hfound := List.find?_some hfind
  simp only [Bool.and_eq_true, decide_eq_true_eq] at hfound
  rw [h id holder hholder] at hfound ⊢
  exact ⟨hfound.1, holder, hholder⟩

/-- Saving a query changes no record exactly if it is stored as it is saved and evicts no other. -/
theorem upsert_eq_iff (h : store.Keyed) (newId : String) (query : SavedQuery) :
  (∀ id, (store.upsert newId query).store.get? id = store.get? id)
    ↔ store.get? (store.upsert newId query).query.id = some (store.upsert newId query).query
      ∧ (store.upsert newId query).evicted = none
  := by
  constructor
  · intro hsame
    constructor
    · rw [← hsame, get?_upsert_eq, if_pos rfl]
    · rw [Option.eq_none_iff_forall_ne_some]
      intro rival hrival
      obtain ⟨hne, holder, hholder⟩ := h.evicted_inv hrival
      have hgone := hsame rival
      rw [get?_upsert_eq, if_neg (Ne.symm hne), if_pos hrival, hholder] at hgone
      cases hgone
  · rintro ⟨hstored, hevicted⟩ id
    rw [get?_upsert_eq, hevicted]
    split
    case isTrue hid => rw [← hid, hstored]
    case isFalse => rfl

end Keyed

end Store

namespace FolderStore

variable {self : FolderStore}

theorem keyed_load (h : self.store.Keyed) (newIds : List String) (disk : Disk) :
  (load self newIds disk).2.store.Keyed
  := by
  apply load_induction (motive := fun found => found.store.Keyed) h
  intro found name newId _ hfound
  rw [loadPath]
  split
  case h_1 => apply hfound.insert
  case h_2 => exact hfound

theorem keyed_delete {on : OnDisk} (h : on.1.store.Keyed) (id : String) :
  (delete id on).2.1.store.Keyed
  := by
  obtain ⟨left, ⟨-, hdelete⟩ | ⟨-, hdelete⟩⟩ := delete_cases id on
  · rw [hdelete]
    exact h
  · rw [hdelete]
    apply h.delete

theorem History.keyed {may : OnDisk → String → SavedQuery → Prop} {on : OnDisk}
    (h : History may on) :
  on.1.store.Keyed
  := by
  induction h with
  | start => rintro _ _ ⟨⟩
  | load _ newIds ih => apply keyed_load ih
  | save _ _ ih =>
    rw [store_save]
    apply ih.upsert
  | delete _ id ih => apply keyed_delete ih
  | change _ _ ih => exact ih

/-! ### Saving without success -/

/-- What has been done when saving a query has failed. -/
theorem save_error_inv {newId : String} {query : SavedQuery} {error : StoreError} {on left : OnDisk}
    (h : save newId query on = (.error error, left)) :
  let upsert := on.1.store.upsert newId query
  (written? newId query on = none ∧ left.1 = { on.1 with store := upsert.store }
      ∧ left.2.files = on.2.files)
    ∨ ∃ written, written? newId query on = some written
      ∧ removeAll (staleFiles newId query on.1) written = (false, left.2)
      ∧ left.1 = { on.1 with
          store := upsert.store
          files := upsert.evicted.elim on.1.files on.1.files.erase }
  := by
  obtain ⟨hunwritten, left, hfiles, hsave⟩
      | ⟨written, left, hwritten, ⟨hremove, hsave⟩ | ⟨hremove, hsave⟩⟩ := save_cases newId query on
  · cases hsave.symm.trans h
    exact .inl ⟨hunwritten, rfl, hfiles⟩
  · cases hsave.symm.trans h
    exact .inr ⟨written, hwritten, hremove, rfl⟩
  · cases hsave.symm.trans h

/-- Removing one file at most changes nothing where it fails. -/
theorem removeAll_toList_eq_false {path : Option Path} {disk left : Disk}
    (h : removeAll path.toList disk = (false, left)) :
  left = disk
  := by
  cases path with
  | none => cases h
  | some path =>
    rw [Option.toList_some, removeAll] at h
    split at h
    case h_1 => cases h
    case h_2 => cases h
    case h_3 =>
      cases h
      rfl

/-- Where files are removed, even if it fails on one of them, there is nothing any more or what
there was, and elsewhere there is what there was. -/
theorem contents?_removeAll_or (paths : List Path) (disk : Disk) (place : Path) :
  (removeAll paths disk).2.contents? place = disk.contents? place
    ∨ (∃ path ∈ paths, place = path.place) ∧ (removeAll paths disk).2.contents? place = none
  := by
  by_cases hplace : ∃ path ∈ paths, place = path.place
  · obtain hkept | hgone := (shrinks_removeAll paths disk).contents place
    · exact .inl hkept
    · exact .inr ⟨hplace, hgone⟩
  · left
    push Not at hplace
    apply contents?_removeAll hplace

/-- What a save leaves that fails. The records are those of a save that succeeds. If the record
could be written, it is in its file, the index has lost the entry of the evicted one, and of the
files that are not needed any more some may be gone; nothing else has changed. -/
structure LeftByFailure (newId : String) (query : SavedQuery) (on left : OnDisk) : Prop where
  records : ∀ id, left.1.store.get? id = (on.1.store.upsert newId query).store.get? id
  index : ∀ id, left.1.files.get? id
    = if (written? newId query on).isSome ∧ (on.1.store.upsert newId query).evicted = some id
      then none else on.1.files.get? id
  files : ∀ place, left.2.contents? place
      = ((written? newId query on).getD on.2).contents? place
    ∨ (written? newId query on).isSome ∧ (∃ path ∈ staleFiles newId query on.1, place = path.place)
      ∧ left.2.contents? place = none

theorem leftByFailure_of_save_error {newId : String} {query : SavedQuery} {error : StoreError}
    {on left : OnDisk} (h : save newId query on = (.error error, left)) :
  LeftByFailure newId query on left
  := by
  obtain ⟨hunwritten, hstore, hfiles⟩ | ⟨written, hwritten, hremove, hstore⟩ := save_error_inv h
  · constructor
    · intro id
      rw [hstore]
    · intro id
      simp [hstore, hunwritten]
    · intro place
      left
      rw [hunwritten, Option.getD_none, Disk.contents?, Disk.contents?, hfiles]
  · constructor
    · intro id
      rw [hstore]
    · intro id
      rw [hstore, hwritten]
      cases (on.1.store.upsert newId query).evicted with
      | none => simp
      | some rival => simp [Table.get?_erase]
    · intro place
      have hplace := contents?_removeAll_or (staleFiles newId query on.1) written place
      rw [hremove] at hplace
      rw [hwritten, Option.getD_some]
      exact hplace.imp_right fun hgone => ⟨rfl, hgone⟩

/-- A save that fails leaves the same records and the same index exactly if the query is stored as
it is saved, and no record is evicted. -/
theorem LeftByFailure.sameEntries_iff {newId : String} {query : SavedQuery} {on left : OnDisk}
    (h : LeftByFailure newId query on left) (hkeyed : on.1.store.Keyed) :
  let upsert := on.1.store.upsert newId query
  on.1.SameEntries left.1
    ↔ on.1.store.get? upsert.query.id = some upsert.query ∧ upsert.evicted = none
  := by
  simp only
  rw [← hkeyed.upsert_eq_iff newId query]
  constructor
  · intro hsame id
    rw [← h.records, hsame.records]
  · intro hstored
    obtain ⟨-, hevicted⟩ := (hkeyed.upsert_eq_iff newId query).mp hstored
    constructor
    · intro id
      rw [h.records, hstored]
    · intro id
      rw [h.index, hevicted]
      simp

/-- Where no record is evicted, a record that could be written is all that has been written, and
nothing has been removed. -/
theorem eq_written_of_save_error {newId : String} {query : SavedQuery} {error : StoreError}
    {on left : OnDisk} (h : save newId query on = (.error error, left))
    (hevicted : (on.1.store.upsert newId query).evicted = none) {written : Disk}
    (hwritten : written? newId query on = some written) :
  left.2 = written
  := by
  obtain ⟨hunwritten, -⟩ | ⟨_, hsome, hremove, -⟩ := save_error_inv h
  · rw [hunwritten] at hwritten
    cases hwritten
  · obtain rfl := Option.some.inj (hsome.symm.trans hwritten)
    have hstale : staleFiles newId query on.1
        = ((on.1.files.get? (on.1.store.upsert newId query).query.id).filter
          (· ≠ on.1.fileFor (on.1.store.upsert newId query).query.id)).toList := by
      rw [staleFiles, hevicted, Option.toList_filter]
      simp
    rw [hstale] at hremove
    exact removeAll_toList_eq_false hremove

/-- A save that fails and evicts no record leaves the same files exactly if the file of the record
cannot be written or held it before. -/
theorem contents?_eq_iff_of_save_error {newId : String} {query : SavedQuery} {error : StoreError}
    {on left : OnDisk} (h : save newId query on = (.error error, left))
    (hevicted : (on.1.store.upsert newId query).evicted = none) :
  let saved := (on.1.store.upsert newId query).query
  (∀ place, left.2.contents? place = on.2.contents? place)
    ↔ written? newId query on = none
      ∨ on.2.contents? (on.1.fileFor saved.id).place = some (Json.indented saved.toData)
  := by
  cases hwritten : written? newId query on with
  | none =>
    constructor
    · intro _
      exact .inl rfl
    · intro _ place
      have hplace := (leftByFailure_of_save_error h).files place
      simpa [hwritten] using hplace
  | some written =>
    rw [eq_written_of_save_error h hevicted hwritten]
    constructor
    · intro hsame
      right
      rw [← hsame, contents?_written? hwritten, if_pos rfl]
    · intro hfile place
      have hfile := hfile.resolve_left (by simp)
      rw [contents?_written? hwritten]
      split
      case isTrue hplace => rw [hplace, hfile]
      case isFalse => rfl

/-- Whether records, index and files are the same. -/
structure Unchanged (on left : OnDisk) : Prop extends on.1.SameEntries left.1 where
  files : ∀ place, left.2.contents? place = on.2.contents? place

/-- A save that fails leaves the records of one that succeeds. It changes nothing exactly if the
query is stored as it is saved, no record is evicted, and the file of the record cannot be written
or held it before. -/
theorem History.save_error {may : OnDisk → String → SavedQuery → Prop} {on left : OnDisk}
    (h : History may on) {newId : String} {query : SavedQuery} {error : StoreError}
    (hsave : FolderStore.save newId query on = (.error error, left)) :
  let upsert := on.1.store.upsert newId query
  LeftByFailure newId query on left
    ∧ (Unchanged on left ↔ on.1.store.get? upsert.query.id = some upsert.query
      ∧ upsert.evicted = none
      ∧ (written? newId query on = none
        ∨ on.2.contents? (on.1.fileFor upsert.query.id).place
          = some (Json.indented upsert.query.toData)))
  := by
  have hleft := leftByFailure_of_save_error hsave
  have hentries := hleft.sameEntries_iff h.keyed
  use hleft
  constructor
  · rintro ⟨hsame, hfiles⟩
    obtain ⟨hstored, hevicted⟩ := hentries.mp hsame
    exact ⟨hstored, hevicted, (contents?_eq_iff_of_save_error hsave hevicted).mp hfiles⟩
  · rintro ⟨hstored, hevicted, hfile⟩
    constructor
    · exact hentries.mpr ⟨hstored, hevicted⟩
    · exact (contents?_eq_iff_of_save_error hsave hevicted).mpr hfile

/-- The store with two records, after a file has come to stand where its folder was. -/
def blocked : OnDisk :=
  (filled.1, { files := [(["queries"], "")] })

/-- Saving a record again that is stored already fails without a trace. -/
theorem save_error_blocked :
  History (fun _ _ _ => True) blocked
    ∧ (FolderStore.save "3" (record "1" "A" "x = 1") blocked).1 = .error .fileAccess
    ∧ Unchanged blocked (FolderStore.save "3" (record "1" "A" "x = 1") blocked).2
  := by
  have hfilled : History (fun _ _ _ => True) filled :=
    .save (.save (.start ["queries"] "book" {}) trivial) trivial
  have hblocked : History (fun _ _ _ => True) blocked := .change hfilled _
  have herror : (FolderStore.save "3" (record "1" "A" "x = 1") blocked).1 = .error .fileAccess := by
    decide +kernel
  have hstored : blocked.1.store.get? (blocked.1.store.upsert "3" (record "1" "A" "x = 1")).query.id
      = some (blocked.1.store.upsert "3" (record "1" "A" "x = 1")).query := by decide +kernel
  have hevicted : (blocked.1.store.upsert "3" (record "1" "A" "x = 1")).evicted = none := by
    decide +kernel
  have hunwritten : (written? "3" (record "1" "A" "x = 1") blocked).isNone = true := by
    decide +kernel
  obtain ⟨-, hunchanged⟩ := History.save_error hblocked (Prod.ext herror rfl)
  use hblocked, herror
  exact hunchanged.mpr ⟨hstored, hevicted, .inl (Option.isNone_iff_eq_none.mp hunwritten)⟩

/-- A record whose file cannot be written has taken the place of another one all the same. The other
one still has its file, and an entry in the index. -/
theorem save_error_displaces :
  let left := FolderStore.save "3" (record "x/y" "A" "x = 3") filled
  left.1 = .error .fileAccess
    ∧ filled.1.store.get? "1" = some (record "1" "A" "x = 1")
    ∧ left.2.1.store.get? "1" = none
    ∧ left.2.1.store.get? "x/y" = some (record "x/y" "A" "x = 3")
    ∧ left.2.1.files.get? "1" = some ["queries", "1.json"]
    ∧ left.2.2.read? ["queries", "1.json"] = some (Json.indented (record "1" "A" "x = 1").toData)
  := by decide +kernel

end FolderStore

end Sift
