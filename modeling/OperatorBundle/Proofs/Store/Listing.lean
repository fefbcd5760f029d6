import OperatorBundle.Proofs.Store.Memory
import OperatorBundle.Proofs.Store.Tree

/-!
# Orders of listing

A store lists the files of a directory in no particular order.  `Order` is one of the orders that it
may choose, anew for each state of the store, and `ArrangedM` runs computations under it.  A store
that keeps names apart (`KeepsNamesApart`) never lists two files of one name, in whatever order.
-/

namespace OperatorBundle.Store

variable {σ α β : Type}

/-! ## Computations under an order -/

/-- An order in which a store lists directories. -/
structure Order (σ : Type) where
  /-- The files of a directory, as this order has them, given as another does. -/
  arrange : σ → Path → List Path → List Path
  perm : ∀ store p files, (arrange store p files).Perm files

namespace Order

/-- The order in which the files are given. -/
def given (σ : Type) : Order σ where
  arrange _ _ files := files
  perm _ _ files := .refl files

/-- The opposite order. -/
def reversed (σ : Type) : Order σ where
  arrange _ _ files := files.reverse
  perm _ _ files := files.reverse_perm

end Order

/-- Computations on a store that lists directories in some order. -/
abbrev ArrangedM (σ : Type) := ReaderT (Order σ) (StoreM σ)

instance [FileStore (StoreM σ)] : FileStore (ArrangedM σ) where
  read p := fun _ => FileStore.read p
  write p text := fun _ => FileStore.write p text
  copy source target := fun _ => FileStore.copy source target
  list p := fun order => do
    let files ← FileStore.list p
    .observe fun store => .ok (order.arrange store p files)
  hasFile p := fun _ => FileStore.hasFile p
  makeDirectories p := fun _ => FileStore.makeDirectories p

/-- The result on a store that lists directories in an order, and the store behind it. -/
def Order.run (order : Order σ) (x : ArrangedM σ α) (store : σ) : Except BundleError α × σ :=
  (x order).run store

/-! ## Computations to which the order does not matter -/

/-- Under an order a computation does what another does without one. -/
def Follows (order : Order σ) (store : σ) (x : ArrangedM σ α) (y : StoreM σ α) : Prop :=
  order.run x store = y.run store

variable {order : Order σ} {store : σ}

/-- Where each step does what it does without an order, so do the steps in a row. -/
theorem Follows.bind {x : ArrangedM σ α} {y : StoreM σ α} {f : α → ArrangedM σ β}
    {g : α → StoreM σ β} (hx : Follows order store x y)
    (hf : ∀ a later, y.run store = (.ok a, later) → Follows order later (f a) (g a)) :
    Follows order store (x >>= f) (y >>= g) := by
  have hbind : order.run (x >>= f) store = ((x order : StoreM σ α) >>= fun a => f a order).run store
    := rfl
  have hfirst : (x order : StoreM σ α).run store = y.run store := hx
  rw [Follows, hbind, StoreM.run_bind, StoreM.run_bind, hfirst]
  rcases hrun : y.run store with ⟨e | a, later⟩
  · rfl
  · exact hf a later hrun

theorem follows_pure (a : α) : Follows order store (pure a) (pure a) := rfl

theorem follows_ofExcept (r : Except BundleError α) :
    Follows order store (MonadExcept.ofExcept r) (MonadExcept.ofExcept r) := by
  cases r <;> rfl

/-- A loop follows where each round does, whatever store it begins with. -/
theorem follows_mapM {f : α → ArrangedM σ β} {g : α → StoreM σ β}
    (h : ∀ a store, Follows order store (f a) (g a)) (as : List α) (store : σ) :
    Follows order store (as.mapM f) (as.mapM g) := by
  induction as generalizing store with
  | nil => exact follows_pure []
  | cons a as ih =>
      rw [List.mapM_cons, List.mapM_cons]
      refine (h a store).bind fun b later _ => ?_
      exact (ih later).bind fun bs _ _ => follows_pure (b :: bs)

section

variable [FileStore (StoreM σ)]

/-- The order does not matter to reading. -/
theorem follows_read (p : Path) :
    Follows order store (FileStore.read p : ArrangedM σ String) (FileStore.read p) := rfl

/-- The order does not matter to writing. -/
theorem follows_write (p : Path) (text : String) :
    Follows order store (FileStore.write p text : ArrangedM σ Unit) (FileStore.write p text) := rfl

/-- The order does not matter to copying. -/
theorem follows_copy (source target : Path) :
    Follows order store (FileStore.copy source target : ArrangedM σ Unit)
      (FileStore.copy source target) := rfl

/-- The order does not matter to making directories. -/
theorem follows_makeDirectories (p : Path) :
    Follows order store (FileStore.makeDirectories p : ArrangedM σ Unit)
      (FileStore.makeDirectories p) := rfl

/-- What does not depend on the order of the files may follow a listing. -/
theorem follows_list_bind {p : Path} {f : List Path → ArrangedM σ β} {g : List Path → StoreM σ β}
    (h : ∀ files arranged later, (FileStore.list p : StoreM σ (List Path)).run store =
      (.ok files, later) → arranged.Perm files → Follows order later (f arranged) (g files)) :
    Follows order store (FileStore.list p >>= f) (FileStore.list p >>= g) := by
  have hlist : order.run (FileStore.list p >>= f : ArrangedM σ β) store =
      (((FileStore.list p : StoreM σ (List Path)) >>= fun files =>
        StoreM.observe fun store => .ok (order.arrange store p files)) >>= fun arranged =>
          f arranged order).run store := rfl
  rw [Follows, hlist, StoreM.run_bind, StoreM.run_bind, StoreM.run_bind]
  rcases hrun : (FileStore.list p : StoreM σ (List Path)).run store with ⟨e | files, later⟩
  · rfl
  · exact h files (order.arrange later p files) later hrun (order.perm later p files)

end

/-! ## Stores that keep names apart -/

/-- A property of stores with which no two files of one name are listed. -/
structure KeepsNamesApart (σ : Type) [FileStore (StoreM σ)] (Sound : σ → Prop) : Prop where
  read : ∀ store p, ((FileStore.read p : StoreM σ String).run store).2 = store
  makeDirectories : ∀ store p, Sound store →
    Sound ((FileStore.makeDirectories p : StoreM σ Unit).run store).2
  list : ∀ store p files later, Sound store →
    (FileStore.list p : StoreM σ (List Path)).run store = (.ok files, later) →
    files.Pairwise Path.NamesDiffer

/-- A store in memory that is a map lists no two files of one name. -/
theorem Memory.keepsNamesApart : KeepsNamesApart Memory Memory.IsMap where
  read _ _ := rfl
  makeDirectories _ _ h := h
  list store p files later h hlist := by
    have hfiles : store.list p = .ok files := congrArg Prod.fst hlist
    rw [Memory.list_eq_ok hfiles]
    exact h.namesDiffer p

namespace Disk

/-- Entries at different places, under ordinary names. -/
structure HasNames (disk : Disk) : Prop where
  apart : disk.entries.Pairwise fun a b => a.1 ≠ b.1
  named : ∀ name directory entry, (name :: directory, entry) ∈ disk.entries → Path.IsName name

variable {disk later : Disk} {p : Path}

/-- A tree of directories has its entries at different places, under ordinary names. -/
theorem IsTree.hasNames (h : disk.IsTree) : disk.HasNames := ⟨h.apart, h.named⟩

/-- The last name of a path is an ordinary one. -/
theorem isName_of_locate {directory : Place} {name : String}
    (h : disk.locate p = .ok (directory, some name)) : Path.IsName name := by
  have hlast : (lastName (steps p)).2 = some name := by
    rw [locate_eq] at h
    split at h
    · cases h
    · split at h
      · cases h
      · cases hbefore : disk.enterAll (disk.origin p) (lastName (steps p)).1 with
        | error cause =>
            rw [hbefore] at h
            cases h
        | ok place =>
            rw [hbefore] at h
            exact congrArg Prod.snd (Except.ok.inj h)
  -- the last step is a part between slashes, and none of the special ones
  unfold lastName at hlast
  split at hlast
  · rename_i text htext
    split at hlast
    · cases hlast
    · rename_i hplain
      cases hlast
      simp only [Bool.or_eq_true, beq_iff_eq, not_or] at hplain
      obtain ⟨part, hpart, rfl⟩ := List.mem_map.mp (List.mem_of_getLast? htext)
      obtain ⟨hsplit, hfull⟩ := List.mem_filter.mp hpart
      rw [Path.IsName, String.toList_ofList]
      refine ⟨?_, Text.not_mem_of_mem_split hsplit, ?_, ?_⟩
      · rintro rfl
        cases hfull
      · rintro rfl
        exact hplain.1 rfl
      · rintro rfl
        exact hplain.2 rfl
  · cases hlast

/-- A directory is made under an ordinary name, at a place that was free. -/
theorem HasNames.ensure (h : disk.HasNames) (hensure : disk.ensure p = .ok later) :
    later.HasNames := by
  rcases ensure_eq_ok hensure with hcreate | ⟨rfl, _⟩
  · obtain ⟨directory, name, hlocate, _, _, rfl⟩ := create_eq_ok hcreate
    refine ⟨pairwise_put_places h.apart _ _, ?_⟩
    intro name' directory' entry hmem
    rcases mem_put hmem with hsame | hmem
    · cases hsame
      exact isName_of_locate hlocate
    · exact h.named _ _ _ hmem
  · exact h

/-- Several directories are made in this way. -/
theorem HasNames.ensureAll (h : disk.HasNames) (ps : List Path) :
    (Disk.ensureAll ps disk).2.HasNames :=
  ensureAll_preserves (fun _ _ _ _ hmade hbefore => HasNames.ensure hbefore hmade) h

end Disk

/-- A disk whose entries are at different places lists no two files of one name. -/
theorem Disk.keepsNamesApart : KeepsNamesApart Disk Disk.HasNames where
  read _ _ := rfl
  makeDirectories _ p h := h.ensureAll p.ancestors
  list disk p files later h hlist := by
    have hfiles : (disk.list p).mapError (Disk.Cause.blaming p) = .ok files :=
      congrArg Prod.fst hlist
    cases hdisk : disk.list p with
    | error cause =>
        rw [hdisk] at hfiles
        cases hfiles
    | ok listed =>
        rw [hdisk] at hfiles
        cases hfiles
        exact Disk.namesDiffer_of_list h.apart h.named hdisk

end OperatorBundle.Store
