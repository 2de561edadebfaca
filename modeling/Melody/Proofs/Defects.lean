import Melody.Player

/-!
# Which scores cannot be played

A fault of a performance stands in the score: it is that of the first statement which has a defect
and is not inside a repetition of zero times. Tempo, loudness, time, settings and earlier rounds of
a repetition have no part in it.

* `Statement.Invalid`, `Defect`: the statements that cannot be played, and why;
* `Place`, `blockPlaces`: all statements with the blocks around them; `Place.Played`;
* `fault_play`, `fault_playBlock`: where the fault of a part comes from;
* **`voices_eq_error_iff`**: whether a score can be played, and what its fault is.
-/

namespace Melody

open Sound (baseFrequency? frequency? octaveFactor)

/-- The five written lengths. -/
def lengths : List String := ["1", "1/2", "1/4", "1/8", "1/16"]

theorem beats?_eq_none_iff (text : String) : beats? text = none ↔ text ∉ lengths := by
  unfold beats?
  split <;> simp_all [lengths]

/-- The spelling of a note has a key, and its frequency in the octave of the note is not finite. -/
def Note.TooHigh (n : Note) : Prop :=
  ∃ base, baseFrequency? n.spelling = some base ∧
    (base * octaveFactor n.octave.toNat).isFinite = false

theorem frequency?_eq_none_iff (n : Note) :
    frequency? n.spelling n.octave = none ↔ baseFrequency? n.spelling = none ∨ n.TooHigh := by
  unfold frequency? Note.TooHigh
  cases baseFrequency? n.spelling with
  | none => simp
  | some base => simp

/-- A statement that cannot be played. -/
inductive Statement.Invalid : Statement → Prop
  | tempo (pos : Position) : Invalid (.tempo pos 0)
  | volume (pos : Position) {percent : UInt32} (h : 100 < percent) : Invalid (.volume pos percent)
  | pitch {n : Note} (h : baseFrequency? n.spelling = none) : Invalid (.note n)
  | octave {n : Note} (h : n.TooHigh) : Invalid (.note n)
  | length {n : Note} (h : n.length ∉ lengths) : Invalid (.note n)

/-- Why a statement cannot be played; of several defects of a note the first counts. -/
inductive Defect : Statement → SemanticCause → Prop
  | tempo (pos : Position) : Defect (.tempo pos 0) (.invalidTempo 0)
  | volume (pos : Position) {percent : UInt32} (h : 100 < percent) :
    Defect (.volume pos percent) (.volumeOutOfRange percent)
  | pitch {n : Note} (h : baseFrequency? n.spelling = none) :
    Defect (.note n) (.unknownPitch n.spelling)
  | octave {n : Note} (hkey : baseFrequency? n.spelling ≠ none) (h : n.TooHigh) :
    Defect (.note n) (.unplayableOctave n.octave)
  | length {n : Note} (hkey : baseFrequency? n.spelling ≠ none) (hoctave : ¬ n.TooHigh)
    (h : n.length ∉ lengths) : Defect (.note n) (.unknownLength n.length)

/-- The first defect of a note. -/
def Note.defect? (n : Note) : Option SemanticCause :=
  if baseFrequency? n.spelling = none then some (.unknownPitch n.spelling)
  else if frequency? n.spelling n.octave = none then some (.unplayableOctave n.octave)
  else if beats? n.length = none then some (.unknownLength n.length)
  else none

/-- The first defect of a statement by itself. -/
def Statement.defect? : Statement → Option SemanticCause
  | .tempo _ bpm => if bpm = 0 then some (.invalidTempo bpm) else none
  | .volume _ percent => if 100 < percent then some (.volumeOutOfRange percent) else none
  | .sequence _ _ _ => none
  | .repetition _ _ _ => none
  | .note n => n.defect?

theorem Note.defect?_eq_some_iff (n : Note) (cause : SemanticCause) :
    n.defect? = some cause ↔ Defect (.note n) cause := by
  unfold Note.defect?
  constructor
  · intro h
    split at h
    · rename_i hkey
      obtain rfl := Option.some.inj h
      exact .pitch hkey
    · rename_i hkey
      split at h
      · rename_i hoctave
        obtain rfl := Option.some.inj h
        exact .octave hkey (((frequency?_eq_none_iff n).mp hoctave).resolve_left hkey)
      · rename_i hoctave
        rw [frequency?_eq_none_iff, not_or] at hoctave
        split at h
        · rename_i hlength
          obtain rfl := Option.some.inj h
          exact .length hkey hoctave.2 ((beats?_eq_none_iff _).mp hlength)
        · exact absurd h nofun
  · intro h
    cases h with
    | pitch hkey => rw [if_pos hkey]
    | octave hkey h =>
      rw [if_neg hkey, if_pos ((frequency?_eq_none_iff n).mpr (.inr h))]
    | length hkey hoctave h =>
      have hhigh : frequency? n.spelling n.octave ≠ none := by
        intro hnone
        exact ((frequency?_eq_none_iff n).mp hnone).elim hkey hoctave
      rw [if_neg hkey, if_neg hhigh, if_pos ((beats?_eq_none_iff _).mpr h)]

theorem Statement.defect?_eq_some_iff (s : Statement) (cause : SemanticCause) :
    s.defect? = some cause ↔ Defect s cause := by
  cases s with
  | tempo pos bpm =>
    simp only [Statement.defect?, Option.ite_none_right_eq_some, Option.some.injEq]
    constructor
    · rintro ⟨rfl, rfl⟩
      exact .tempo pos
    · intro h
      cases h
      exact ⟨rfl, rfl⟩
  | volume pos percent =>
    simp only [Statement.defect?, Option.ite_none_right_eq_some, Option.some.injEq]
    constructor
    · rintro ⟨hpercent, rfl⟩
      exact .volume pos hpercent
    · intro h
      cases h with
      | volume _ hpercent => exact ⟨hpercent, rfl⟩
  | sequence pos name body => exact ⟨nofun, nofun⟩
  | repetition pos count body => exact ⟨nofun, nofun⟩
  | note n => exact n.defect?_eq_some_iff cause

theorem Statement.invalid_iff (s : Statement) : s.Invalid ↔ ∃ cause, Defect s cause := by
  constructor
  · intro h
    cases h with
    | tempo pos => exact ⟨_, .tempo pos⟩
    | volume pos h => exact ⟨_, .volume pos h⟩
    | pitch h => exact ⟨_, .pitch h⟩
    | @octave n h =>
      obtain ⟨base, hbase, _⟩ := id h
      exact ⟨_, .octave (by rw [hbase]; nofun) h⟩
    | @length n h =>
      by_cases hkey : baseFrequency? n.spelling = none
      · exact ⟨_, .pitch hkey⟩
      · by_cases hoctave : n.TooHigh
        · exact ⟨_, .octave hkey hoctave⟩
        · exact ⟨_, .length hkey hoctave h⟩
  · rintro ⟨cause, h⟩
    cases h with
    | tempo pos => exact .tempo pos
    | volume pos h => exact .volume pos h
    | pitch h => exact .pitch h
    | octave _ h => exact .octave h
    | length _ _ h => exact .length h

/-! ## Places -/

/-- A statement with the blocks around it, the innermost first. -/
structure Place where
  around : List Statement
  statement : Statement

mutual

/-- A statement inside the blocks `around`, and those of its own block. -/
def Statement.places (around : List Statement) : Statement → List Place
  | .tempo pos bpm => [⟨around, .tempo pos bpm⟩]
  | .volume pos percent => [⟨around, .volume pos percent⟩]
  | .sequence pos name body =>
    ⟨around, .sequence pos name body⟩ :: blockPlaces (.sequence pos name body :: around) body
  | .repetition pos count body =>
    ⟨around, .repetition pos count body⟩ :: blockPlaces (.repetition pos count body :: around) body
  | .note n => [⟨around, .note n⟩]

/-- The statements of a block, each before those of its own block. -/
def blockPlaces (around : List Statement) : List Statement → List Place
  | [] => []
  | s :: ss => s.places around ++ blockPlaces around ss

end

/-- All statements of a score with the blocks around them, each before those of its block. -/
def Score.places (score : Score) : List Place := blockPlaces [] score.statements

mutual

theorem listing_places : ∀ (s : Statement) (around : List Statement),
    s.listing around.length = (s.places around).map fun p => (p.around.length, p.statement)
  | .tempo _ _, _ => rfl
  | .volume _ _, _ => rfl
  | .sequence pos name body, around => by
    rw [Statement.listing, Statement.places, List.map_cons]
    exact congrArg _ (listing_blockPlaces body (.sequence pos name body :: around))
  | .repetition pos count body, around => by
    rw [Statement.listing, Statement.places, List.map_cons]
    exact congrArg _ (listing_blockPlaces body (.repetition pos count body :: around))
  | .note _, _ => rfl

theorem listing_blockPlaces : ∀ (ss : List Statement) (around : List Statement),
    blockListing around.length ss =
      (blockPlaces around ss).map fun p => (p.around.length, p.statement)
  | [], _ => rfl
  | s :: ss, around => by
    rw [blockListing, blockPlaces, List.map_append, listing_places s around,
      listing_blockPlaces ss around]

end

theorem Score.listing_eq_places (score : Score) :
    score.listing = score.places.map fun p => (p.around.length, p.statement) :=
  listing_blockPlaces score.statements []

/-- A repetition of zero times. -/
def Statement.isSilent : Statement → Bool
  | .repetition _ count _ => count == 0
  | _ => false

namespace Place

/-- No block around the place is a repetition of zero times. -/
def Played (p : Place) : Prop := ∀ s ∈ p.around, s.isSilent = false

instance (p : Place) : Decidable p.Played :=
  inferInstanceAs (Decidable (∀ s ∈ p.around, s.isSilent = false))

/-- The fault that the statement at a place is played with, if it is played and has a defect. -/
def fault? (p : Place) : Option Fault :=
  if p.Played then p.statement.defect?.map fun cause => ⟨p.statement.pos, .semantic cause⟩
  else none

theorem fault?_of_played {around : List Statement} (h : ∀ b ∈ around, b.isSilent = false)
    (s : Statement) :
    fault? ⟨around, s⟩ = s.defect?.map fun cause => ⟨s.pos, .semantic cause⟩ :=
  if_pos h

theorem fault?_eq_some_iff (p : Place) (fault : Fault) :
    p.fault? = some fault ↔ p.Played ∧
      ∃ cause, Defect p.statement cause ∧ fault = ⟨p.statement.pos, .semantic cause⟩ := by
  unfold fault?
  rw [Option.ite_none_right_eq_some, Option.map_eq_some_iff]
  refine and_congr_right fun _ => exists_congr fun cause => ?_
  rw [p.statement.defect?_eq_some_iff, eq_comm]

theorem isSome_fault?_iff (p : Place) :
    p.fault?.isSome = true ↔ p.Played ∧ p.statement.Invalid := by
  rw [Option.isSome_iff_exists, p.statement.invalid_iff]
  constructor
  · rintro ⟨fault, h⟩
    obtain ⟨hplayed, cause, hdefect, _⟩ := (p.fault?_eq_some_iff fault).mp h
    exact ⟨hplayed, cause, hdefect⟩
  · rintro ⟨hplayed, cause, hdefect⟩
    exact ⟨_, (p.fault?_eq_some_iff _).mpr ⟨hplayed, cause, hdefect, rfl⟩⟩

theorem fault?_eq_none_iff (p : Place) :
    p.fault? = none ↔ (p.Played → ¬ p.statement.Invalid) := by
  rw [← Option.not_isSome_iff_eq_none, p.isSome_fault?_iff, not_and]

end Place

mutual

theorem around_subset_of_mem_places : ∀ (s : Statement) (around : List Statement),
    ∀ p ∈ s.places around, around ⊆ p.around
  | .tempo _ _, around, p, h => by
    obtain rfl := List.mem_singleton.mp h
    exact List.Subset.refl around
  | .volume _ _, around, p, h => by
    obtain rfl := List.mem_singleton.mp h
    exact List.Subset.refl around
  | .sequence pos name body, around, p, h => by
    rw [Statement.places, List.mem_cons] at h
    rcases h with rfl | h
    · exact List.Subset.refl around
    · exact (List.cons_subset.mp (around_subset_of_mem_blockPlaces body _ p h)).2
  | .repetition pos count body, around, p, h => by
    rw [Statement.places, List.mem_cons] at h
    rcases h with rfl | h
    · exact List.Subset.refl around
    · exact (List.cons_subset.mp (around_subset_of_mem_blockPlaces body _ p h)).2
  | .note _, around, p, h => by
    obtain rfl := List.mem_singleton.mp h
    exact List.Subset.refl around

theorem around_subset_of_mem_blockPlaces : ∀ (ss : List Statement) (around : List Statement),
    ∀ p ∈ blockPlaces around ss, around ⊆ p.around
  | [], _, p, h => absurd h List.not_mem_nil
  | s :: ss, around, p, h => by
    rw [blockPlaces, List.mem_append] at h
    rcases h with h | h
    · exact around_subset_of_mem_places s around p h
    · exact around_subset_of_mem_blockPlaces ss around p h

end

theorem findSome?_blockPlaces_of_isSilent {around : List Statement} {s : Statement}
    (hmem : s ∈ around) (hs : s.isSilent = true) (ss : List Statement) :
    (blockPlaces around ss).findSome? Place.fault? = none := by
  rw [List.findSome?_eq_none_iff]
  intro p hp
  refine if_neg fun hplayed => ?_
  have hfalse := hplayed s (around_subset_of_mem_blockPlaces ss around p hp hmem)
  exact absurd (hs.symm.trans hfalse) nofun

/-! ## Playing and places -/

/-- The fault that ends a part of a performance, if any. -/
def faultOf : EStateM.Result Fault Recital Unit → Option Fault
  | .ok _ _ => none
  | .error fault _ => some fault

/-- A part with the same fault in every round has it in the first round, if there is one. -/
theorem faultOf_times {part : Play} {fault? : Option Fault} (h : ∀ r, faultOf (part r) = fault?)
    (n : Nat) : ∀ r, faultOf (part.times n r) = if n = 0 then none else fault? := by
  induction n with
  | zero => exact fun r => rfl
  | succ n ih =>
    intro r
    have hfirst := h r
    rw [if_neg n.succ_ne_zero]
    unfold Play.times
    cases hr : part r with
    | ok _ r' =>
      rw [hr] at hfirst
      change faultOf (part.times n r') = fault?
      rw [ih r', ← hfirst]
      exact ite_self none
    | error fault r' =>
      rw [hr] at hfirst
      exact hfirst

theorem faultOf_note (n : Note) (r : Recital) :
    faultOf ((Statement.note n).play r) =
      n.defect?.map fun cause => ⟨n.pos, .semantic cause⟩ := by
  unfold Statement.play Stage.event Note.defect?
  cases hkey : baseFrequency? n.spelling with
  | none => rfl
  | some base =>
    cases hoctave : frequency? n.spelling n.octave with
    | none => rfl
    | some frequency => cases hlength : beats? n.length <;> rfl

mutual

theorem fault_play : ∀ (s : Statement) (around : List Statement) (r : Recital),
    (∀ b ∈ around, b.isSilent = false) →
    faultOf (s.play r) = (s.places around).findSome? Place.fault?
  | .tempo pos bpm, around, r, h => by
    rw [Statement.places, List.findSome?_singleton, Place.fault?_of_played h, Statement.play,
      Statement.defect?]
    by_cases hbpm : bpm = 0
    · rw [if_pos hbpm, if_pos hbpm]
      rfl
    · rw [if_neg hbpm, if_neg hbpm]
      rfl
  | .volume pos percent, around, r, h => by
    rw [Statement.places, List.findSome?_singleton, Place.fault?_of_played h, Statement.play,
      Statement.defect?]
    by_cases hpercent : 100 < percent
    · rw [if_pos hpercent, if_pos hpercent]
      rfl
    · rw [if_neg hpercent, if_neg hpercent]
      rfl
  | .sequence pos name body, around, r, h => by
    have hbody := fault_playBlock body (.sequence pos name body :: around) (r.enter name)
      (List.forall_mem_cons.mpr ⟨rfl, h⟩)
    rw [Statement.places, List.findSome?_cons, Place.fault?_of_played h, Statement.play]
    refine Eq.trans ?_ hbody
    cases playBlock body (r.enter name) <;> rfl
  | .repetition pos count body, around, r, h => by
    rw [Statement.places, List.findSome?_cons, Place.fault?_of_played h, Statement.play]
    -- a repetition of zero times plays nothing and hides all places of its body
    by_cases hcount : count = 0
    · subst hcount
      exact (findSome?_blockPlaces_of_isSilent List.mem_cons_self rfl body).symm
    · have hne : count.toNat ≠ 0 := fun h0 => hcount (UInt32.toNat_inj.mp h0)
      have hsilent : (Statement.repetition pos count body).isSilent = false :=
        beq_eq_false_iff_ne.mpr hcount
      have hbody := fun r => fault_playBlock body (.repetition pos count body :: around) r
        (List.forall_mem_cons.mpr ⟨hsilent, h⟩)
      rw [faultOf_times hbody, if_neg hne]
      rfl
  | .note n, around, r, h => by
    rw [Statement.places, List.findSome?_singleton, Place.fault?_of_played h]
    exact faultOf_note n r

theorem fault_playBlock : ∀ (ss : List Statement) (around : List Statement) (r : Recital),
    (∀ b ∈ around, b.isSilent = false) →
    faultOf (playBlock ss r) = (blockPlaces around ss).findSome? Place.fault?
  | [], _, _, _ => rfl
  | s :: ss, around, r, h => by
    have hs := fault_play s around r h
    rw [blockPlaces, List.findSome?_append, ← hs, playBlock]
    cases hr : s.play r with
    | ok _ r' => exact fault_playBlock ss around r' h
    | error fault r' => rfl

end

theorem voices_eq_error_iff_fault (p : Performance) (settings : Sound.Settings) (fault : Fault) :
    p.voices settings = .error fault ↔ p.fault = some fault := by
  unfold Performance.voices
  cases p.fault <;> simp

theorem voices_eq_error_iff_faultOf (player : Player) (score : Score) (now : Float)
    (fault : Fault) :
    (player.execute score now).1.voices player.settings = .error fault ↔
      faultOf (playBlock score.statements (.opening now)) = some fault := by
  rw [voices_eq_error_iff_fault]
  unfold Player.execute Performance.of
  cases playBlock score.statements (.opening now) <;> simp [faultOf]

theorem exists_place_of_voices_eq_error {score : Score} {now : Float} {settings : Sound.Settings}
    {fault : Fault} (h : (Performance.of score now).voices settings = .error fault) :
    ∃ p ∈ score.places, ∃ cause, fault = ⟨p.statement.pos, .semantic cause⟩ := by
  have hfault := (voices_eq_error_iff_faultOf (.new settings) score now fault).mp h
  rw [fault_playBlock score.statements [] _ (List.forall_mem_nil _)] at hfault
  obtain ⟨p, hp, hpfault⟩ := List.exists_of_findSome?_eq_some hfault
  obtain ⟨-, cause, -, rfl⟩ := (p.fault?_eq_some_iff fault).mp hpfault
  exact ⟨p, hp, cause, rfl⟩

/-- **Whether a score can be played, and what its fault is, stands in the score.** The fault is
that of the first invalid statement that no repetition of zero times is around, for its first
defect and at its own place. -/
theorem voices_eq_error_iff (player : Player) (score : Score) (now : Float) :
    let outcome := (player.execute score now).1.voices player.settings
    ((∃ fault, outcome = .error fault) ↔ ∃ p ∈ score.places, p.Played ∧ p.statement.Invalid) ∧
      ∀ fault, outcome = .error fault ↔ ∃ before p after cause,
        score.places = before ++ p :: after ∧ (∀ q ∈ before, q.Played → ¬ q.statement.Invalid) ∧
          p.Played ∧ Defect p.statement cause ∧ fault = ⟨p.statement.pos, .semantic cause⟩ := by
  intro outcome
  have hfault : ∀ fault, outcome = .error fault ↔
      score.places.findSome? Place.fault? = some fault := by
    intro fault
    rw [Score.places, ← fault_playBlock score.statements [] (.opening now) (List.forall_mem_nil _)]
    exact voices_eq_error_iff_faultOf player score now fault
  constructor
  · simp only [hfault, ← Option.isSome_iff_exists, List.findSome?_isSome_iff,
      Place.isSome_fault?_iff]
  · intro fault
    simp only [hfault, List.findSome?_eq_some_iff, Place.fault?_eq_some_iff,
      Place.fault?_eq_none_iff]
    constructor
    · rintro ⟨before, p, after, hplaces, ⟨hplayed, cause, hdefect, hfault⟩, hbefore⟩
      exact ⟨before, p, after, cause, hplaces, hbefore, hplayed, hdefect, hfault⟩
    · rintro ⟨before, p, after, cause, hplaces, hbefore, hplayed, hdefect, hfault⟩
      exact ⟨before, p, after, hplaces, ⟨hplayed, cause, hdefect, hfault⟩, hbefore⟩

end Melody
