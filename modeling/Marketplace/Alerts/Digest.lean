import Marketplace.Board.SavedSearches
import Marketplace.Mail.Outbox

/-!
# The alert digest

What the alert pass writes to one account: the jobs that its searches caught, the first ten
of them itemised, and a line for each search that fired.

The digest is rendered from matches, in the order in which they were found
(`Marketplace.Alerts.renderDigest`), and the matches of a batch are shared out among the
accounts, in the order of these (`Marketplace.Alerts.perUser`).
-/

namespace Marketplace.Alerts

open Board Search

/-- What a digest line needs to say about a job. -/
structure AlertJob where
  id : Uuid
  title : Text
  trade : Option Text
  postalCode : Text
  timeline : JobTimeline
  budgetMinCents : Option ℕ
  budgetMaxCents : Option ℕ
  deriving DecidableEq

/-- The pieces of markup that a message is put together from. -/
structure Markup where
  escape : Text → Text
  shell : Text → Text → Text
  heading : Text → Text
  label : Text → Text
  paragraph : Text → Text
  link : Text → Text → Text
  footnote : Text → Text
  digestJob : Text → Text → Text → Text

/-- **What rendering depends on**: the site, and the functions it is given. -/
structure Site where
  /-- `site_origin`. -/
  origin : Text
  /-- The token of a saved search, under the pepper of the site. -/
  unsubscribeToken : Uuid → Text
  /-- How an identifier is written. -/
  formatUuid : Uuid → Text
  /-- The markup. -/
  markup : Markup

/-- A rendered digest. -/
structure Digest where
  subject : Text
  bodyText : Text
  bodyHtml : Text
  unsubscribeUrl : Text
  deriving DecidableEq

/-- `DIGEST_LINES`. -/
def digestLines : ℕ := 10

/-- A number, in decimal. -/
def decimal (n : ℕ) : Text := Nat.toDigits 10 n

/-- `timeline_words`. -/
def timelineWords : JobTimeline → Text
  | .asap => "wanted ASAP".toList
  | .within2Weeks => "within 2 weeks".toList
  | .moreThan2Weeks => "more than 2 weeks out".toList
  | .unsure => "timing flexible".toList

/-- `budget_words`. -/
def budgetWords : Option ℕ → Option ℕ → Text
  | some min, some max =>
    ", budget $".toList ++ decimal (min / 100) ++ "–$".toList ++ decimal (max / 100)
  | _, _ => []

/-- The elements of a list, the first of each key. -/
def firstOfEach {α κ : Type} [DecidableEq κ] (key : α → κ) (xs : List α) : List α :=
  xs.foldl (fun seen a => if seen.any fun b => key b = key a then seen else seen ++ [a]) []

/-- `unsubscribe_url`. -/
def unsubscribeUrl (site : Site) (searchId : Uuid) : Text :=
  site.origin ++ "/unsubscribe?search=".toList ++ site.formatUuid searchId ++
    "&token=".toList ++ site.unsubscribeToken searchId

/-- What a digest says about one job. -/
def jobFacts (job : AlertJob) : Text :=
  job.trade.getD "Other".toList ++ ", ZIP ".toList ++ job.postalCode ++ ", ".toList ++
    timelineWords job.timeline ++ budgetWords job.budgetMinCents job.budgetMaxCents

/-- The page of a job. -/
def jobUrl (site : Site) (job : AlertJob) : Text :=
  site.origin ++ "/jobs/".toList ++ site.formatUuid job.id

/-- The line of a search that fired. -/
def footerLine (site : Site) (a : AlertMatch) : Text :=
  "  ".toList ++ a.searchName ++ " — stop: ".toList ++ unsubscribeUrl site a.searchId ++
    "\n".toList

/-- **`render_digest`.** -/
def renderDigest (site : Site) (alerts : List AlertMatch) (jobs : List AlertJob) : Digest :=
  let html := site.markup
  let seen := (firstOfEach AlertMatch.jobId alerts).map AlertMatch.jobId
  let total := seen.length
  let subject := if total = 1 then "1 new job matches your saved search".toList
    else decimal total ++ " new jobs match your saved searches".toList
  let listed := (seen.take digestLines).filterMap fun id => jobs.find? fun job => job.id = id
  let lines := listed.flatMap fun job =>
    "\n  • ".toList ++ job.title ++ " — ".toList ++ jobFacts job ++ "\n    ".toList ++
      jobUrl site job ++ "\n".toList
  let cards := listed.flatMap fun job => html.digestJob (jobUrl site job) job.title (jobFacts job)
  let board := site.origin ++ "/jobs".toList
  let more := decimal (total - digestLines)
  let moreLine := if digestLines < total then
    "\n  …and ".toList ++ more ++ " more: ".toList ++ board ++ "\n".toList else []
  let moreCard := if digestLines < total then
    html.paragraph ("…and ".toList ++ more ++ " more on ".toList ++
      html.link board "the job board".toList ++ ".".toList) else []
  let fired := firstOfEach AlertMatch.searchId alerts
  let footer := fired.flatMap (footerLine site)
  let footerHtml := fired.flatMap fun a =>
    "<br><strong style=\"color:#4c5a75;\">".toList ++ html.escape a.searchName ++
      "</strong> — <a href=\"".toList ++ unsubscribeUrl site a.searchId ++
      "\" style=\"color:#6b7688;\">stop these</a>".toList
  let why := "You get this email because of your saved searches:".toList
  let htmlBody :=
    html.label "Job board".toList ++
      html.heading (if total = 1 then "A new job matches your saved search".toList
        else "New jobs match your saved searches".toList) ++
      html.paragraph "Posted on the job board since your last digest.".toList ++
      (cards ++ moreCard) ++ html.footnote (why ++ "<br>".toList ++ footerHtml)
  { subject := subject
    bodyText := "New on the job board this week:\n".toList ++ lines ++ moreLine ++
      "\n".toList ++ why ++ "\n".toList ++ footer
    bodyHtml := html.shell (decimal total ++ " new ".toList ++
      (if total = 1 then "job".toList else "jobs".toList) ++ " on the job board".toList) htmlBody
    unsubscribeUrl := ((fired.map AlertMatch.searchId).head?.map (unsubscribeUrl site)).getD [] }

/-- **A queued digest**: the message, with the matches it was rendered from, which no
statement reads. -/
structure Outgoing extends Mail.NewEmail where
  alerts : List AlertMatch
  deriving DecidableEq

/-- The message of an account. -/
def outgoing (site : Site) (jobs : List AlertJob) (userId : Uuid) (alerts : List AlertMatch) :
    Outgoing :=
  let email := renderDigest site alerts jobs
  { userId := userId
    recipient := (alerts.head?.map AlertMatch.email).getD []
    kind := .jobAlert
    subject := email.subject
    bodyText := email.bodyText
    bodyHtml := some email.bodyHtml
    unsubscribeUrl := some email.unsubscribeUrl
    alerts := alerts }

/-- The matches of a batch, one list for each account, in the order of the accounts. -/
def perUser (found : List AlertMatch) : List (Uuid × List AlertMatch) :=
  ((found.map AlertMatch.userId).dedup.insertionSort (· ≤ ·)).map fun userId =>
    (userId, found.filter fun a => a.userId = userId)

/-! ### No search is left out -/

section FirstOfEach

variable {α κ : Type} [DecidableEq κ] {key : α → κ}

private theorem foldl_firstOfEach (xs seen : List α) {c : κ} :
    c ∈ (xs.foldl (fun seen a => if seen.any fun b => key b = key a then seen else seen ++ [a])
      seen).map key ↔ c ∈ seen.map key ∨ c ∈ xs.map key := by
  induction xs generalizing seen with
  | nil => simp
  | cons a xs ih =>
    rw [List.foldl_cons, ih, List.map_cons, List.mem_cons, ← or_assoc]
    refine or_congr ?_ Iff.rfl
    split
    · rename_i hany
      simp only [List.any_eq_true, decide_eq_true_eq] at hany
      obtain ⟨b, hb, he⟩ := hany
      refine ⟨Or.inl, ?_⟩
      rintro (hseen | rfl)
      · exact hseen
      · exact List.mem_map.mpr ⟨b, hb, he⟩
    · simp

/-- Every key has its first element. -/
theorem mem_firstOfEach {xs : List α} {c : κ} :
    c ∈ (firstOfEach key xs).map key ↔ c ∈ xs.map key := by
  rw [firstOfEach, foldl_firstOfEach]
  simp

end FirstOfEach

/-- **A digest names every search that fired**: the page that stops it is in the body. -/
theorem unsubscribeUrl_infix (site : Site) {alerts : List AlertMatch} (jobs : List AlertJob)
    {a : AlertMatch} (h : a ∈ alerts) :
    unsubscribeUrl site a.searchId <:+: (renderDigest site alerts jobs).bodyText := by
  have hfired : a.searchId ∈ (firstOfEach AlertMatch.searchId alerts).map AlertMatch.searchId :=
    mem_firstOfEach.mpr (List.mem_map_of_mem h)
  obtain ⟨b, hb, hid⟩ := List.mem_map.mp hfired
  have hline : unsubscribeUrl site a.searchId <:+: footerLine site b := by
    rw [footerLine, hid]
    exact (List.suffix_append _ _).isInfix.trans (List.prefix_append _ _).isInfix
  have hfooter : footerLine site b <:+:
      (firstOfEach AlertMatch.searchId alerts).flatMap (footerLine site) :=
    List.infix_of_mem_flatten (List.mem_map_of_mem hb)
  -- the footer ends the body
  exact (hline.trans hfooter).trans (List.suffix_append _ _).isInfix

variable {found : List AlertMatch} {userId : Uuid} {alerts : List AlertMatch} {a : AlertMatch}

/-- The accounts have one list each. -/
theorem nodup_perUser : ((perUser found).map Prod.fst).Nodup := by
  have hmap : (perUser found).map Prod.fst =
      (found.map AlertMatch.userId).dedup.insertionSort (· ≤ ·) := by
    rw [perUser, List.map_map]
    exact List.map_id _
  rw [hmap, (List.perm_insertionSort _ _).nodup_iff]
  exact List.nodup_dedup _

/-- The list of an account is its matches. -/
theorem mem_perUser (h : (userId, alerts) ∈ perUser found) :
    a ∈ alerts ↔ a ∈ found ∧ a.userId = userId := by
  obtain ⟨u, -, he⟩ := List.mem_map.mp h
  obtain ⟨rfl, rfl⟩ := Prod.mk.inj he
  rw [List.mem_filter, decide_eq_true_eq]

/-- **Every match is in the list of its account.** -/
theorem exists_mem_perUser (h : a ∈ found) :
    ∃ alerts, (a.userId, alerts) ∈ perUser found ∧ a ∈ alerts := by
  have hu : a.userId ∈ (found.map AlertMatch.userId).dedup.insertionSort (· ≤ ·) := by
    rw [(List.perm_insertionSort _ _).mem_iff, List.mem_dedup]
    exact List.mem_map_of_mem h
  refine ⟨_, List.mem_map.mpr ⟨a.userId, hu, rfl⟩, ?_⟩
  rw [List.mem_filter, decide_eq_true_eq]
  exact ⟨h, rfl⟩

end Marketplace.Alerts
