import Mathlib.Data.String.Basic
import Mathlib.Data.Set.Finite.Basic
import Legba.SubjectTokens
import Legba.SubscriptionFilter

/-!
# Subject planning

The coarse half of a subscription: the subject a signal is published on, the
subject filters planned for a target, and the filters its durable consumer
ends up with.

A plan covers the target when every signal its bindings match is published
under one of the filters, and it is confined when nothing else of another
tenant or source is.  Planning always covers; an empty plan falls back to the
whole stream, and an empty tenant or source becomes a wildcard.
-/

namespace Legba.Subscriptions

open SubjectTokens List String

def signalSubjectRoot : String := "legba.signals"

def subjectTokenDisallowed : List Char :=
  [' ', '\t', '\n', '.', '*', '>', '/', '\\']

def subjectToken (value : String) : String :=
  if value = "" then "_"
  else String.ofList (value.toList.map fun c => if c ∈ subjectTokenDisallowed then '_' else c)

def signalSubject (tenant sourceId modality : String) (eventClass : String := "raw") : String :=
  signalSubjectRoot ++ ("." ++ (subjectToken tenant ++ ("." ++
    (subjectToken sourceId ++ ("." ++ (subjectToken modality ++ ("." ++
      subjectToken eventClass)))))))

def axisToken : Option String → String
  | none => "*"
  | some value => if value = "" then "*" else subjectToken value

def signalSubjectFilter (tenant sourceId modality eventClass : Option String) :
    String :=
  signalSubjectRoot ++ ("." ++ (axisToken tenant ++ ("." ++
    (axisToken sourceId ++ ("." ++ (axisToken modality ++ ("." ++ axisToken eventClass)))))))

def knownModalities : List String :=
  ["text", "image", "audio", "video", "structured", "binary"]

/-- `sorted(set(...))`. -/
def sortedSet (values : List String) : List String :=
  values.dedup.insertionSort (· ≤ ·)

/-- The modality axis of a subscription, `none` for the wildcard.  A binding
whose modalities are all unknown is skipped. -/
def plannedModalities (sub : Subscription) : List (Option String) :=
  if sub.modalities.isEmpty then [none]
  else (sub.modalities.filter fun m => knownModalities.contains m).map some

def bindingFilters (b : ResolvedBinding) : List String :=
  (plannedModalities b.subscription).map fun modality =>
    signalSubjectFilter (some b.ownerTenant) (some b.sourceId) modality none

def subjectFiltersFor (bindings : List ResolvedBinding) : List String :=
  sortedSet (bindings.flatMap bindingFilters)

inductive DeliverPolicy where
  | all
  | new
  | last
  | byStartSequence
  deriving DecidableEq, Repr

inductive AckPolicy where
  | explicit
  | all
  | none
  deriving DecidableEq, Repr

structure ConsumerConfig where
  durableName : String
  deliverPolicy : DeliverPolicy
  ackPolicy : AckPolicy
  maxAckPending : ℕ
  optStartSeq : Option ℕ := none
  filterSubject : Option String := none
  filterSubjects : Option (List String) := none
  deriving DecidableEq, Repr

def ConsumerConfig.filters (config : ConsumerConfig) : List String :=
  sortedSet (config.filterSubjects.getD [] ++
    match config.filterSubject with
    | none => []
    | some filter => if filter = "" then [] else [filter])

def ConsumerConfig.withFilters (config : ConsumerConfig) (wanted : List String) : ConsumerConfig :=
  match wanted with
  | [filter] => { config with filterSubject := some filter }
  | _ => { config with filterSubjects := some wanted }

def wantedFilters (filterSubjects : List String) : List String :=
  let wanted := sortedSet filterSubjects
  if wanted.isEmpty then [signalSubjectRoot ++ ".>"] else wanted

def deliverPolicyOf (name : String) : DeliverPolicy :=
  match name.toLower with
  | "new" => .new
  | "last" => .last
  | _ => .all

def ackPolicyOf (name : String) : AckPolicy :=
  match name.toLower with
  | "all" => .all
  | "none" => .none
  | _ => .explicit

/-- `ensure_durable_consumer`, given the live consumer of that name. -/
def ensureDurableConsumer (existing : Option ConsumerConfig)
    (durable : String) (filterSubjects : List String)
    (deliverPolicy : String := "all") (ackPolicy : String := "explicit")
    (maxAckPending : ℕ := 1000) : ConsumerConfig :=
  let wanted := wantedFilters filterSubjects
  let config : ConsumerConfig :=
    { durableName := durable
      deliverPolicy := deliverPolicyOf deliverPolicy
      ackPolicy := ackPolicyOf ackPolicy
      maxAckPending := maxAckPending }
  match existing with
  | some current =>
    if current.filters = wanted then current else config.withFilters wanted
  | none => config.withFilters wanted

def targetConsumerName (targetId : String) : String :=
  "target_" ++ subjectToken targetId

/-- The consumer `register_target` binds for the authorized bindings; without
any it binds none. -/
def registerTarget (existing : Option ConsumerConfig) (targetId : String)
    (authorized : List ResolvedBinding) : Option ConsumerConfig :=
  if authorized.isEmpty then none
  else some (ensureDurableConsumer existing (targetConsumerName targetId)
    (subjectFiltersFor authorized))

def boundFilters (existing : Option ConsumerConfig) (targetId : String)
    (bindings : List ResolvedBinding) : List String :=
  match registerTarget existing targetId bindings with
  | none => []
  | some config => config.filters

/-- Every signal of a known modality which some binding matches is published
under one of the filters. -/
def Covers (evalResidual : String → SignalRow → Bool)
    (bindings : List ResolvedBinding) (filters : List String) : Prop :=
  ∀ b ∈ bindings, ∀ (row : SignalRow) (tenant sourceId modality : String),
    matchesRow evalResidual b.subscription row b.sourceId b.ownerTenant = true →
    row.ownerTenant = some tenant → row.sourceId = some sourceId →
    row.modality = some modality → modality ∈ knownModalities →
    ∀ eventClass, ∃ filter ∈ filters,
      subjectMatches filter (signalSubject tenant sourceId modality eventClass) = true

/-- Every subject under one of the filters carries the tenant and the source
of some binding. -/
def Confined (bindings : List ResolvedBinding) (filters : List String) : Prop :=
  ∀ filter ∈ filters, ∀ subject, subjectMatches filter subject = true →
    ∃ b ∈ bindings,
      (tokens subject)[2]? = some (subjectToken b.ownerTenant) ∧
      (tokens subject)[3]? = some (subjectToken b.sourceId)

def ResolvedBinding.Planned (b : ResolvedBinding) : Prop :=
  b.subscription.modalities = [] ∨
    ∃ modality ∈ b.subscription.modalities, modality ∈ knownModalities

theorem not_mem_disallowed_of_mem_subjectToken {value : String} {c : Char}
    (hc : c ∈ (subjectToken value).toList) : c ∉ subjectTokenDisallowed := by
  unfold subjectToken at hc
  split at hc
  · have hunderscore : c = '_' := by simpa using hc
    rw [hunderscore]
    decide
  · rw [toList_ofList, mem_map] at hc
    obtain ⟨original, _, hreplaced⟩ := hc
    rw [← hreplaced]
    split
    · decide
    · assumption

theorem subjectToken_isLiteral (value : String) : IsLiteral (subjectToken value) where
  noDot := by
    intro hdot
    exact not_mem_disallowed_of_mem_subjectToken hdot (by decide)
  ne_star := by
    intro hstar
    have hmem : '*' ∈ (subjectToken value).toList := by simp [hstar]
    exact not_mem_disallowed_of_mem_subjectToken hmem (by decide)
  ne_full := by
    intro hfull
    have hmem : '>' ∈ (subjectToken value).toList := by simp [hfull]
    exact not_mem_disallowed_of_mem_subjectToken hmem (by decide)

theorem axisToken_noDot (axis : Option String) : '.' ∉ (axisToken axis).toList := by
  cases axis with
  | none => decide
  | some value =>
    by_cases hempty : value = ""
    · simp [axisToken, hempty]
    · rw [axisToken, if_neg hempty]
      exact (subjectToken_isLiteral value).noDot

theorem tokens_root (rest : String) :
    tokens (signalSubjectRoot ++ ("." ++ rest)) = "legba" :: "signals" :: tokens rest := by
  have hroot : signalSubjectRoot = "legba" ++ ("." ++ "signals") := by decide
  rw [hroot, String.append_assoc, String.append_assoc,
    tokens_cons (by decide), tokens_cons (by decide)]

theorem tokens_signalSubject (tenant sourceId modality eventClass : String) :
    tokens (signalSubject tenant sourceId modality eventClass) =
      ["legba", "signals", subjectToken tenant, subjectToken sourceId,
        subjectToken modality, subjectToken eventClass] := by
  have hnoDot := fun value => (subjectToken_isLiteral value).noDot
  unfold signalSubject
  rw [tokens_root, tokens_cons (hnoDot tenant), tokens_cons (hnoDot sourceId),
    tokens_cons (hnoDot modality), tokens_of_noDot (hnoDot eventClass)]

theorem tokens_signalSubjectFilter (tenant sourceId modality eventClass : Option String) :
    tokens (signalSubjectFilter tenant sourceId modality eventClass) =
      ["legba", "signals", axisToken tenant, axisToken sourceId,
        axisToken modality, axisToken eventClass] := by
  unfold signalSubjectFilter
  rw [tokens_root, tokens_cons (axisToken_noDot tenant), tokens_cons (axisToken_noDot sourceId),
    tokens_cons (axisToken_noDot modality), tokens_of_noDot (axisToken_noDot eventClass)]

theorem legba_isLiteral : IsLiteral "legba" :=
  ⟨by decide, by decide, by decide⟩

theorem signals_isLiteral : IsLiteral "signals" :=
  ⟨by decide, by decide, by decide⟩

theorem stream_matches_signalSubject (tenant sourceId modality eventClass : String) :
    subjectMatches (signalSubjectRoot ++ ".>")
      (signalSubject tenant sourceId modality eventClass) = true := by
  have hstream : tokens (signalSubjectRoot ++ ".>") = ["legba", "signals", ">"] := by decide
  unfold subjectMatches
  rw [hstream, tokens_signalSubject, matchTokens_literal_cons legba_isLiteral]
  refine ⟨_, rfl, ?_⟩
  rw [matchTokens_literal_cons signals_isLiteral]
  refine ⟨_, rfl, ?_⟩
  exact matchTokens_full.mpr (cons_ne_nil _ _)

def AxisAccepts (axis : Option String) (token : String) : Prop :=
  ∀ value, axis = some value → value ≠ "" → token = subjectToken value

theorem matchTokens_axis_cons (axis : Option String) {patterns subject : List String} :
    matchTokens (axisToken axis :: patterns) subject = true ↔
      ∃ token rest, subject = token :: rest ∧ AxisAccepts axis token ∧
        matchTokens patterns rest = true := by
  have hopen : (∀ token, AxisAccepts axis token) → axisToken axis = "*" →
      (matchTokens (axisToken axis :: patterns) subject = true ↔
        ∃ token rest, subject = token :: rest ∧ AxisAccepts axis token ∧
          matchTokens patterns rest = true) := by
    intro haccepts hstar
    rw [hstar, matchTokens_star_cons]
    simp only [haccepts, true_and]
  cases axis with
  | none =>
    apply hopen _ rfl
    intro token value habsurd
    cases habsurd
  | some value =>
    by_cases hempty : value = ""
    · apply hopen _ (if_pos hempty)
      intro token other hsome hother
      cases hsome
      exact absurd hempty hother
    · have htoken : axisToken (some value) = subjectToken value :=
        if_neg hempty
      have haccepts : ∀ token, AxisAccepts (some value) token ↔ token = subjectToken value := by
        intro token
        constructor
        · intro h
          exact h value rfl hempty
        · intro h other hsome _
          cases hsome
          exact h
      rw [htoken, matchTokens_literal_cons (subjectToken_isLiteral value)]
      simp only [haccepts]
      constructor
      · rintro ⟨rest, hsubject, hrest⟩
        exact ⟨_, rest, hsubject, rfl, hrest⟩
      · rintro ⟨_, rest, hsubject, rfl, hrest⟩
        exact ⟨rest, hsubject, hrest⟩

theorem subjectMatches_signalSubjectFilter_iff
    (tenant sourceId modality eventClass : Option String) (subject : String) :
    subjectMatches (signalSubjectFilter tenant sourceId modality eventClass) subject = true ↔
      ∃ t s m e, tokens subject = ["legba", "signals", t, s, m, e] ∧
        AxisAccepts tenant t ∧ AxisAccepts sourceId s ∧
        AxisAccepts modality m ∧ AxisAccepts eventClass e := by
  unfold subjectMatches
  rw [tokens_signalSubjectFilter]
  simp only [matchTokens_literal_cons legba_isLiteral, matchTokens_literal_cons
    signals_isLiteral, matchTokens_axis_cons, matchTokens_nil]
  constructor
  · rintro ⟨_, hsubject, _, rfl, t, _, rfl, ht, s, _, rfl, hs, m, _, rfl, hm, e, _, rfl, he, rfl⟩
    exact ⟨t, s, m, e, hsubject, ht, hs, hm, he⟩
  · rintro ⟨t, s, m, e, hsubject, ht, hs, hm, he⟩
    exact ⟨_, hsubject, _, rfl, t, _, rfl, ht, s, _, rfl, hs, m, _, rfl, hm, e, _, rfl, he, rfl⟩

theorem subjectMatches_signalSubject_iff (tenant sourceId modality eventClass : Option String)
    (tenant' sourceId' modality' eventClass' : String) :
    subjectMatches (signalSubjectFilter tenant sourceId modality eventClass)
        (signalSubject tenant' sourceId' modality' eventClass') = true ↔
      AxisAccepts tenant (subjectToken tenant') ∧
        AxisAccepts sourceId (subjectToken sourceId') ∧
        AxisAccepts modality (subjectToken modality') ∧
        AxisAccepts eventClass (subjectToken eventClass') := by
  rw [subjectMatches_signalSubjectFilter_iff, tokens_signalSubject]
  constructor
  · rintro ⟨t, s, m, e, hsubject, haccepts⟩
    injection hsubject with _ hsubject
    injection hsubject with _ hsubject
    injection hsubject with ht hsubject
    injection hsubject with hs hsubject
    injection hsubject with hm hsubject
    injection hsubject with he _
    rw [ht, hs, hm, he]
    exact haccepts
  · intro haccepts
    exact ⟨_, _, _, _, rfl, haccepts⟩

theorem axisAccepts_none (token : String) : AxisAccepts none token := by
  intro value habsurd
  cases habsurd

theorem axisAccepts_self (value : String) : AxisAccepts (some value) (subjectToken value) := by
  intro other hsome _
  cases hsome
  rfl

theorem axisAccepts_empty (token : String) : AxisAccepts (some "") token := by
  intro value hsome hne
  cases hsome
  exact absurd rfl hne

theorem mem_sortedSet {value : String} {values : List String} :
    value ∈ sortedSet values ↔ value ∈ values := by
  unfold sortedSet
  rw [mem_insertionSort, mem_dedup]

variable {bindings : List ResolvedBinding} {filter : String}
  {filterSubjects : List String}

theorem mem_subjectFiltersFor :
    filter ∈ subjectFiltersFor bindings ↔
      ∃ b ∈ bindings, ∃ modality ∈ plannedModalities b.subscription,
        filter = signalSubjectFilter (some b.ownerTenant) (some b.sourceId) modality none := by
  unfold subjectFiltersFor bindingFilters
  rw [mem_sortedSet, mem_flatMap]
  simp only [mem_map, eq_comm]

theorem mem_wantedFilters :
    filter ∈ wantedFilters filterSubjects ↔
      filter ∈ filterSubjects ∨ filterSubjects = [] ∧ filter = signalSubjectRoot ++ ".>" := by
  have hempty : (sortedSet filterSubjects).isEmpty = true ↔ filterSubjects = [] := by
    rw [List.isEmpty_iff, List.eq_nil_iff_forall_not_mem, eq_nil_iff_forall_not_mem]
    simp only [mem_sortedSet]
  unfold wantedFilters
  by_cases hnil : filterSubjects = []
  · rw [if_pos (hempty.mpr hnil)]
    simp [hnil]
  · rw [if_neg (mt hempty.mp hnil), mem_sortedSet]
    simp [hnil]

theorem mem_filters_withFilters {config : ConsumerConfig} {wanted : List String}
    (hsubject : config.filterSubject = none) (hsubjects : config.filterSubjects = none)
    (hwanted : "" ∉ wanted) : filter ∈ (config.withFilters wanted).filters ↔ filter ∈ wanted := by
  unfold ConsumerConfig.withFilters
  split
  · rename_i single
    have hne : single ≠ "" := by
      intro hempty
      exact hwanted (by simp [hempty])
    simp [ConsumerConfig.filters, mem_sortedSet, hsubjects, hne]
  · simp [ConsumerConfig.filters, mem_sortedSet, hsubject]

theorem empty_notMem_wantedFilters (hne : "" ∉ filterSubjects) :
    "" ∉ wantedFilters filterSubjects := by
  rw [mem_wantedFilters]
  rintro (hmem | ⟨_, hroot⟩)
  · exact hne hmem
  · exact absurd hroot (by decide)

theorem mem_filters_ensureDurableConsumer (existing : Option ConsumerConfig)
    (durable : String) (hne : "" ∉ filterSubjects) (filter : String) :
    filter ∈ (ensureDurableConsumer existing durable filterSubjects).filters ↔
      filter ∈ wantedFilters filterSubjects := by
  have hwanted := empty_notMem_wantedFilters hne
  unfold ensureDurableConsumer
  cases existing with
  | none => exact mem_filters_withFilters rfl rfl hwanted
  | some current =>
    dsimp only
    by_cases hsame : current.filters = wantedFilters filterSubjects
    · rw [if_pos hsame, hsame]
    · rw [if_neg hsame]
      exact mem_filters_withFilters rfl rfl hwanted

theorem empty_notMem_subjectFiltersFor (bindings : List ResolvedBinding) :
    "" ∉ subjectFiltersFor bindings := by
  rw [mem_subjectFiltersFor]
  rintro ⟨b, _, modality, _, hempty⟩
  have htokens := congrArg tokens hempty
  rw [tokens_signalSubjectFilter] at htokens
  exact absurd htokens (by simp [tokens])

theorem mem_boundFilters (existing : Option ConsumerConfig) (targetId : String) :
    filter ∈ boundFilters existing targetId bindings ↔
      bindings ≠ [] ∧ filter ∈ wantedFilters (subjectFiltersFor bindings) := by
  unfold boundFilters registerTarget
  cases bindings with
  | nil => simp
  | cons b rest =>
    have hne := empty_notMem_subjectFiltersFor (b :: rest)
    have hfilters := mem_filters_ensureDurableConsumer existing
      (targetConsumerName targetId) hne filter
    simpa using hfilters

/-! ## Coverage and confinement -/

theorem planned_iff (b : ResolvedBinding) :
    b.Planned ↔ ∃ modality, modality ∈ plannedModalities b.subscription := by
  unfold ResolvedBinding.Planned plannedModalities
  by_cases hnil : b.subscription.modalities = []
  · simp [hnil]
  · simp [hnil]

theorem subjectFiltersFor_eq_nil_iff (bindings : List ResolvedBinding) :
    subjectFiltersFor bindings = [] ↔ ¬ ∃ b ∈ bindings, b.Planned := by
  rw [eq_nil_iff_forall_not_mem]
  simp only [mem_subjectFiltersFor, planned_iff]
  constructor
  · rintro hnone ⟨b, hb, modality, hmodality⟩
    exact hnone _ ⟨b, hb, modality, hmodality, rfl⟩
  · rintro hnone filter ⟨b, hb, modality, hmodality, _⟩
    exact hnone ⟨b, hb, modality, hmodality⟩

theorem exists_planned_modality {evalResidual : String → SignalRow → Bool} {sub : Subscription}
    {row : SignalRow} {sourceId ownerTenant modality : String}
    (hmatches : matchesRow evalResidual sub row sourceId ownerTenant)
    (hmodality : row.modality = some modality) (hknown : modality ∈ knownModalities) :
    ∃ planned ∈ plannedModalities sub, AxisAccepts planned (subjectToken modality) := by
  have hmeets := ((matchesRow_eq_true_iff _ _ _ _ _).mp hmatches).1
  rcases hmeets.modalities with hnil | ⟨wanted, hwanted, hrow⟩
  · refine ⟨none, ?_, axisAccepts_none _⟩
    simp [plannedModalities, hnil]
  · have hsame : wanted = modality := by
      rw [hmodality] at hrow
      exact (Option.some.inj hrow).symm
    subst wanted
    have hnil : sub.modalities ≠ [] := ne_nil_of_mem hwanted
    refine ⟨some modality, ?_, axisAccepts_self modality⟩
    simp [plannedModalities, hnil, hwanted, hknown]

theorem wantedFilters_covers (evalResidual : String → SignalRow → Bool)
    (bindings : List ResolvedBinding) :
    Covers evalResidual bindings (wantedFilters (subjectFiltersFor bindings)) := by
  intro b hb row tenant sourceId modality hmatches htenant hsource hmodality hknown eventClass
  obtain ⟨planned, hplanned, haccepts⟩ := exists_planned_modality hmatches hmodality hknown
  have hmeets := ((matchesRow_eq_true_iff _ _ _ _ _).mp hmatches).1
  have htenant' : b.ownerTenant = tenant := Option.some.inj (hmeets.tenant.symm.trans htenant)
  have hsource' : b.sourceId = sourceId := Option.some.inj (hmeets.source.symm.trans hsource)
  have hmem : signalSubjectFilter (some b.ownerTenant) (some b.sourceId)
      planned none ∈ subjectFiltersFor bindings :=
    mem_subjectFiltersFor.mpr ⟨b, hb, planned, hplanned, rfl⟩
  refine ⟨_, mem_wantedFilters.mpr (.inl hmem), ?_⟩
  rw [subjectMatches_signalSubject_iff, htenant', hsource']
  exact ⟨axisAccepts_self tenant, axisAccepts_self sourceId, haccepts, axisAccepts_none _⟩

theorem boundFilters_covers (existing : Option ConsumerConfig) (targetId : String)
    (evalResidual : String → SignalRow → Bool) (bindings : List ResolvedBinding) :
    Covers evalResidual bindings (boundFilters existing targetId bindings) := by
  intro b hb row tenant sourceId modality hmatches htenant hsource hmodality hknown eventClass
  obtain ⟨filter, hfilter, hsubject⟩ :=
    wantedFilters_covers evalResidual bindings b hb row tenant sourceId
      modality hmatches htenant hsource hmodality hknown eventClass
  have hbindings : bindings ≠ [] := ne_nil_of_mem hb
  exact ⟨filter, (mem_boundFilters existing targetId).mpr ⟨hbindings, hfilter⟩, hsubject⟩

theorem exists_fresh_token (used : List String) : ∃ value, subjectToken value ∉ used := by
  let text : ℕ → String := fun n => ofList (replicate (n + 1) 'a')
  have htoken : ∀ n, subjectToken (text n) = text n := by
    intro n
    apply toList_inj.mp
    have hne : text n ≠ "" := by
      intro hempty
      have hlist := congrArg toList hempty
      simp [text] at hlist
    rw [subjectToken, if_neg hne, toList_ofList, toList_ofList, map_replicate]
    rfl
  have hinjective : Function.Injective text := by
    intro n m heq
    have hlist := congrArg (fun value => value.toList.length) heq
    simpa [text] using hlist
  obtain ⟨_, ⟨n, rfl⟩, hfresh⟩ :=
    (Set.infinite_range_of_injective hinjective).exists_notMem_finset used.toFinset
  refine ⟨text n, ?_⟩
  rw [htoken]
  simpa using hfresh

theorem not_confined_of_foreign {filters : List String} {tenant sourceId modality : String}
    (hmem : filter ∈ filters)
    (hmatches : subjectMatches filter (signalSubject tenant sourceId modality))
    (hforeign : ∀ b ∈ bindings, subjectToken tenant = subjectToken b.ownerTenant → subjectToken
      sourceId ≠ subjectToken b.sourceId) : ¬ Confined bindings filters := by
  intro hconfined
  obtain ⟨b, hb, htenant, hsource⟩ := hconfined filter hmem _ hmatches
  rw [tokens_signalSubject] at htenant hsource
  exact hforeign b hb (Option.some.inj htenant) (Option.some.inj hsource)

section

variable (existing : Option ConsumerConfig)

include existing

theorem boundFilters_confined (targetId : String)
    (hplan : bindings = [] ∨ ∃ b ∈ bindings, b.Planned)
    (hpinned : ∀ b ∈ bindings, b.Planned → b.ownerTenant ≠ "" ∧ b.sourceId ≠ "") :
    Confined bindings (boundFilters existing targetId bindings) := by
  intro filter hfilter subject hmatches
  rw [mem_boundFilters, mem_wantedFilters] at hfilter
  obtain ⟨hbindings, hplanned | ⟨hnil, _⟩⟩ := hfilter
  · obtain ⟨b, hb, modality, hmodality, rfl⟩ := mem_subjectFiltersFor.mp hplanned
    have hb_planned : b.Planned := (planned_iff b).mpr ⟨modality, hmodality⟩
    obtain ⟨htenant, hsource⟩ := hpinned b hb hb_planned
    obtain ⟨t, s, m, e, htokens, ht, hs, _⟩ :=
      (subjectMatches_signalSubjectFilter_iff _ _ _ _ _).mp hmatches
    refine ⟨b, hb, ?_, ?_⟩
    · rw [htokens, ← ht b.ownerTenant rfl htenant]
      rfl
    · rw [htokens, ← hs b.sourceId rfl hsource]
      rfl
  · have hsome := hplan.resolve_left hbindings
    exact absurd hsome ((subjectFiltersFor_eq_nil_iff bindings).mp hnil)

theorem exists_planned_of_confined (targetId : String) (hbindings : bindings ≠ [])
    (hconfined : Confined bindings (boundFilters existing targetId bindings)) :
    ∃ b ∈ bindings, b.Planned := by
  by_contra hnone
  have hnil := (subjectFiltersFor_eq_nil_iff bindings).mpr hnone
  obtain ⟨tenant, hfresh⟩ := exists_fresh_token (bindings.map fun b => subjectToken b.ownerTenant)
  have hmem : signalSubjectRoot ++ ".>" ∈ boundFilters existing targetId bindings :=
    (mem_boundFilters existing targetId).mpr ⟨hbindings, mem_wantedFilters.mpr (.inr ⟨hnil, rfl⟩)⟩
  have hmatches := stream_matches_signalSubject tenant "" "" "raw"
  apply not_confined_of_foreign hmem hmatches _ hconfined
  intro b hb htenant
  exact absurd (mem_map.mpr ⟨b, hb, htenant.symm⟩) hfresh

theorem pinned_of_confined (targetId : String)
    (hconfined : Confined bindings (boundFilters existing targetId bindings)) {b : ResolvedBinding}
    (hb : b ∈ bindings) (hplanned : b.Planned) : b.ownerTenant ≠ "" ∧ b.sourceId ≠ "" := by
  obtain ⟨modality, hmodality⟩ := (planned_iff b).mp hplanned
  have hmem : signalSubjectFilter (some b.ownerTenant) (some b.sourceId)
      modality none ∈ boundFilters existing targetId bindings :=
    (mem_boundFilters existing targetId).mpr
      ⟨ne_nil_of_mem hb, mem_wantedFilters.mpr (.inl
        (mem_subjectFiltersFor.mpr ⟨b, hb, modality, hmodality, rfl⟩))⟩
  have hmodality_accepts : AxisAccepts modality (subjectToken (modality.getD "")) := by
    cases modality with
    | none => exact axisAccepts_none _
    | some value => exact axisAccepts_self value
  constructor
  · intro hempty
    obtain ⟨tenant, hfresh⟩ := exists_fresh_token
      (bindings.map fun other => subjectToken other.ownerTenant)
    have hmatches := (subjectMatches_signalSubject_iff (some b.ownerTenant)
      (some b.sourceId) modality none tenant b.sourceId (modality.getD "")
      "raw").mpr
        ⟨hempty ▸ axisAccepts_empty _, axisAccepts_self _, hmodality_accepts, axisAccepts_none _⟩
    apply not_confined_of_foreign hmem hmatches _ hconfined
    intro other hother htenant
    exact absurd (mem_map.mpr ⟨other, hother, htenant.symm⟩) hfresh
  · intro hempty
    obtain ⟨sourceId, hfresh⟩ := exists_fresh_token
      (bindings.map fun other => subjectToken other.sourceId)
    have hmatches := (subjectMatches_signalSubject_iff (some b.ownerTenant)
      (some b.sourceId) modality none b.ownerTenant sourceId (modality.getD "")
      "raw").mpr
        ⟨axisAccepts_self _, hempty ▸ axisAccepts_empty _, hmodality_accepts, axisAccepts_none _⟩
    apply not_confined_of_foreign hmem hmatches _ hconfined
    intro other hother _ hsource
    exact hfresh (mem_map.mpr ⟨other, hother, hsource.symm⟩)

end

/-- The filters in force cover and confine the target exactly when there is
nothing to plan or something planned, and no planned binding has an empty
tenant or source. -/
theorem plan_covers_and_confines_iff (existing : Option ConsumerConfig) (targetId : String)
    (evalResidual : String → SignalRow → Bool) (bindings : List ResolvedBinding) :
    Covers evalResidual bindings (boundFilters existing targetId bindings) ∧
        Confined bindings (boundFilters existing targetId bindings) ↔
      (bindings = [] ∨ ∃ b ∈ bindings, b.Planned) ∧
        ∀ b ∈ bindings, b.Planned → b.ownerTenant ≠ "" ∧ b.sourceId ≠ "" := by
  constructor
  · rintro ⟨_, hconfined⟩
    refine ⟨?_, fun b hb => pinned_of_confined existing targetId hconfined hb⟩
    by_cases hbindings : bindings = []
    · exact .inl hbindings
    · exact .inr (exists_planned_of_confined existing targetId hbindings hconfined)
  · rintro ⟨hplan, hpinned⟩
    exact ⟨boundFilters_covers existing targetId evalResidual bindings,
      boundFilters_confined existing targetId hplan hpinned⟩

/-- A target whose only binding asks for an unknown modality is bound to the
whole stream. -/
theorem unknown_modality_binds_whole_stream :
    let bindings : List ResolvedBinding :=
      [{ sourceId := "source.reuters", ownerTenant := "default",
         subscription := { modalities := ["hologram"] } }]
    boundFilters none "desk" bindings = ["legba.signals.>"] ∧
      subjectMatches "legba.signals.>" (signalSubject "acme" "source.internal" "text") = true ∧
      ¬ Confined bindings (boundFilters none "desk" bindings) := by
  intro bindings
  have hfilters : boundFilters none "desk" bindings = ["legba.signals.>"] := by decide
  have hforeign : subjectMatches "legba.signals.>"
      (signalSubject "acme" "source.internal" "text") = true := by
    decide
  refine ⟨hfilters, hforeign, ?_⟩
  apply not_confined_of_foreign (mem_singleton_self _) hforeign
  decide

end Legba.Subscriptions
