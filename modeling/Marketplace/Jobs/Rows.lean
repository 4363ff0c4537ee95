import Marketplace.Alerts.Store
import Marketplace.Directory.Contractors
import Marketplace.Audit.Log

/-!
# Jobs, photographs, and the object store

A photograph is a row, which says whether it is shown, and an object, which holds the bytes. The
photographs of a job and those of a listing are kept in two tables of one shape
(`Marketplace.Jobs.Photo`), each with an order of its own among those of the same owner.

A job keeps what no statement reads, the processes that closed and reopened it, in order: its
status is always the last one it was given (`Marketplace.Jobs.JobRow.told`).
-/

namespace Marketplace.Jobs

open Alerts (Posting NewJob Ending)
open Board (JobStatus BuildType JobTimeline Budget)

/-! ### Objects -/

/-- The key of an object. -/
inductive Key
  /-- `photo_key`. -/
  | job (jobId photoId : Uuid)
  /-- `contractor_photo_key`. -/
  | contractor (contractorId photoId : Uuid)
  deriving DecidableEq

/-- A picture that has been decoded and encoded again, without what else was in the file. -/
structure Normalised where
  /-- The number of its bytes. -/
  byteSize : ℕ
  width : ℕ
  height : ℕ
  /-- There is a picture. -/
  positive : 0 < byteSize ∧ 0 < width ∧ 0 < height
  deriving DecidableEq

/-- **What is not computed here**: the image library, the object store, and the accounts,
listings and reference data that no request of this subsystem writes. -/
structure Setting where
  /-- `normalise`, of an upload. -/
  normalise : List UInt8 → Except AppError Normalised
  /-- Whether the object store answers at a time. -/
  storage : Instant → Bool
  /-- The account is one of a homeowner. -/
  homeowner : Uuid → Bool
  /-- `claimed_by`: the listing of an account. -/
  claimedBy : Uuid → Option Uuid
  /-- `trade_ids_for_slugs`, of one slug. -/
  tradeId : Text → Option Uuid
  /-- `find_zcta`. -/
  findZcta : Text → Option Directory.Region

/-- A setting in which every file is a picture of one dot, and everybody a homeowner who owns the
listing of the same number. -/
def Setting.plain : Setting where
  normalise bytes := if bytes.isEmpty then
      .error (.invalid "That file could not be read as an image.")
    else .ok ⟨1, 1, 1, by decide⟩
  storage _ := true
  homeowner _ := true
  claimedBy := some
  tradeId _ := none
  findZcta _ := none

/-! ### Photographs -/

/-- The two tables of photographs. -/
inductive Gallery
  /-- `job_photos`. -/
  | job
  /-- `contractor_photos`. -/
  | contractor
  deriving DecidableEq

namespace Gallery

/-- The key of a new photograph of an owner. -/
def key : Gallery → Uuid → Uuid → Key
  | job => .job
  | contractor => .contractor

/-- How many photographs one owner may have: `MAX_PER_JOB` and `MAX_PER_CONTRACTOR`. -/
def cap : Gallery → ℕ
  | job => 8
  | contractor => 12

end Gallery

/-- A photograph to insert. -/
structure NewPhoto where
  /-- The job, or the listing. -/
  ownerId : Uuid
  storageKey : Key
  byteSize : ℕ
  width : ℕ
  height : ℕ
  deriving DecidableEq

/-- **A row of `job_photos`, or of `contractor_photos`.** -/
structure Photo extends NewPhoto where
  /-- Its place among those of its owner. -/
  position : ℕ
  deriving DecidableEq

/-- Two photographs that the unique indexes do not let stand beside one another. -/
def Photo.clashes (photo other : Photo) : Bool :=
  photo.storageKey = other.storageKey ||
    (photo.ownerId = other.ownerId && photo.position = other.position)

/-! ### Jobs -/

/-- **A row of `jobs`**, with the status it began with, and the processes that closed and
reopened it since, each with the status it gave. -/
structure JobRow extends Posting where
  began : JobStatus
  turns : List (ℕ × JobStatus)
  /-- The status is the last one that was given. -/
  told : status = (turns.getLast?.map Prod.snd).getD began
  deriving DecidableEq

/-- A job of an account, as it may be posted. -/
def NewJob.plain (poster : Uuid) : NewJob where
  postedByUserId := poster
  title := "Fence".toList
  description := List.replicate 50 'x'
  tradeId := none
  buildType := .unsure
  jobSize := "Small".toList
  budget := none
  timeline := .unsure
  postalCode := "90210".toList
  centroid := none

namespace JobRow

/-- The row of a new job. -/
def new (job : NewJob) (id : Uuid) (now : Instant) : JobRow where
  toPosting := job.row id now
  began := .opened
  turns := []
  told := rfl

/-- The row, once process `i` has written `p` over it. -/
def turn (i : ℕ) (p : Posting) (r : JobRow) : JobRow where
  toPosting := p
  began := r.began
  turns := r.turns ++ [(i, p.status)]
  told := by simp

/-- `jobs::close`, by process `i`. -/
def close (i : ℕ) (poster : Uuid) (status : Ending) (now : Instant) (r : JobRow) :
    Option (Unit × JobRow) :=
  (r.toPosting.close poster status now).map fun q => ((), r.turn i q.2)

/-- `jobs::reopen`, by process `i`. -/
def reopen (i : ℕ) (poster : Uuid) (r : JobRow) : Option (Unit × JobRow) :=
  (r.toPosting.reopen poster).map fun q => ((), r.turn i q.2)

variable {i : ℕ} {poster : Uuid} {status : Ending} {now : Instant} {r r' : JobRow} {u : Unit}

/-- **What closing a job does**: an open one of the poster gets the status. -/
theorem close_eq (h : r.close i poster status now = some (u, r')) :
    r.postedByUserId = poster ∧ r.status = .opened ∧ r'.postedByUserId = poster ∧
      r'.status = status.1 ∧ r'.began = r.began ∧ r'.turns = r.turns ++ [(i, status.1)] := by
  obtain ⟨⟨v, p⟩, hp, he⟩ := Option.map_eq_some_iff.mp h
  cases he
  rw [Posting.close] at hp
  split at hp
  · rename_i hopen
    cases hp
    exact ⟨hopen.1, hopen.2, hopen.1, rfl, rfl, rfl⟩
  · cases hp

/-- **What reopening a job does**: a closed one of the poster is open again. -/
theorem reopen_eq (h : r.reopen i poster = some (u, r')) :
    r.postedByUserId = poster ∧ r.status = .closed ∧ r'.postedByUserId = poster ∧
      r'.status = .opened ∧ r'.began = r.began ∧ r'.turns = r.turns ++ [(i, .opened)] := by
  obtain ⟨⟨v, p⟩, hp, he⟩ := Option.map_eq_some_iff.mp h
  cases he
  rw [Posting.reopen] at hp
  split at hp
  · rename_i hclosed
    cases hp
    exact ⟨hclosed.1, hclosed.2, hclosed.1, rfl, rfl, rfl⟩
  · cases hp

/-- A job that cannot be closed by its poster is not open. -/
theorem not_opened_of_close (h : r.close i poster status now = none)
    (hposter : r.postedByUserId = poster) : r.status ≠ .opened := by
  intro hopen
  have hp : r.toPosting.close poster status now = none := Option.map_eq_none_iff.mp h
  rw [Posting.close, if_pos ⟨hposter, hopen⟩] at hp
  cases hp

end JobRow

/-! ### What is posted -/

/-- A post, before anything has been checked. -/
structure PostJob where
  title : Text
  description : Text
  /-- `none` is the poster's "Other / not listed". -/
  tradeSlug : Option Text
  buildType : BuildType
  jobSize : Text
  postalCode : Text
  /-- `none` is the poster's "I'm not sure". -/
  budget : Option (ℤ × ℤ)
  timeline : JobTimeline
  deriving DecidableEq

/-- `MIN_DESCRIPTION`. -/
def minDescription : ℕ := 50

/-- The budget of a post. -/
def parseBudget : Option (ℤ × ℤ) → Except AppError (Option Budget)
  | none => .ok none
  | some (min, max) =>
    if min < 0 ∨ max < 0 then .error (.invalid "A budget cannot be negative.")
    else if h : min.toNat ≤ max.toNat then .ok (some ⟨min.toNat, max.toNat, h⟩)
    else .error (.invalid "The lower end of the budget must not exceed the upper end.")

/-- What a post asks for, trimmed, when it may be asked for; the trade and the centroid are
looked up later. -/
def PostJob.check (poster : Uuid) (input : PostJob) : Except AppError NewJob := do
  let title := trim input.title
  let description := trim input.description
  if title.isEmpty then throw (.invalid "A title is required.")
  if title.length > 140 then throw (.invalid "A title must be under 140 characters.")
  if description.isEmpty then throw (.invalid "A description is required.")
  let described := description.length
  if described < minDescription then throw (.invalid
    ("Please describe the work in at least " ++ toString minDescription ++
      " characters — you have written " ++ toString described ++
      ". What needs doing, and where in the property?"))
  if described > 4000 then throw (.invalid "A description must be under 4000 characters.")
  let jobSize := trim input.jobSize
  if jobSize.isEmpty then throw (.invalid
    "Tell us roughly how big the job is. \"Not sure yet\" is a fine answer.")
  if jobSize.length > 200 then throw (.invalid
    "Keep the size to under 200 characters — the details belong in the description.")
  let budget ← parseBudget input.budget
  let postalCode := trim input.postalCode
  if byteLen postalCode ≠ 5 || !postalCode.all Char.isDigit then
    throw (.invalid "Enter a valid five-digit ZIP code.")
  pure
    { postedByUserId := poster
      title := title
      description := description
      tradeId := none
      buildType := input.buildType
      jobSize := jobSize
      budget := budget
      timeline := input.timeline
      postalCode := postalCode
      centroid := none }

end Marketplace.Jobs
