import CallBridge.Pattern.Recognizer
import CallBridge.Proofs.Collection.Span

/-!
# Origins

What an origin is, said without a scanner: two slashes and an authority, in front of them a scheme
and a colon or nothing (`IsOrigin`). Main statements: the head of a URL is split into an origin and a
path exactly when it is made of the two (`splitOrigin?_eq_some_iff`), and a URL is allowed exactly
when every origin it begins with is (`isAllowed_iff`).
-/

namespace CallBridge.Url

open Collection Pattern

/-- An authority behind two slashes, with a scheme and a colon in front of them or without. A scheme
begins with a letter, an authority has no slash. -/
inductive IsOrigin : List Char → Prop where
  | relative {authority : List Char} : '/' ∉ authority → IsOrigin ('/' :: '/' :: authority)
  | absolute {letter : Char} {scheme authority : List Char} :
      letter.isAlpha → (∀ c ∈ scheme, isSchemeChar c) → '/' ∉ authority →
      IsOrigin (letter :: scheme ++ ':' :: '/' :: '/' :: authority)

/-- What may stand behind an origin: nothing, or a path from a slash. -/
def BeginsPath (cs : List Char) : Prop := Stops (· != '/') cs

variable {cs origin rest authority : List Char}

/-! ### Splitting a head -/

theorem splitAuthority_append (h : '/' ∉ authority) (hrest : BeginsPath rest) :
    splitAuthority (authority ++ rest) = (authority, rest) := by
  have hno : ∀ c ∈ authority, (c != '/') = true := fun c hc =>
    bne_iff_ne.2 fun heq => h (heq ▸ hc)
  rw [splitAuthority, takeWhile_append_stops hno hrest, dropWhile_append_stops hno hrest]

theorem splitAuthority_spec (cs : List Char) :
    ∃ authority rest, splitAuthority cs = (authority, rest) ∧ cs = authority ++ rest ∧
      '/' ∉ authority ∧ BeginsPath rest := by
  refine ⟨_, _, rfl, List.takeWhile_append_dropWhile.symm, fun hmem => ?_, stops_dropWhile _ _⟩
  have hne := List.mem_takeWhile_imp (p := (· != '/')) hmem
  exact bne_iff_ne.1 hne rfl

theorem isSchemeChar_of_isAlpha {c : Char} (h : c.isAlpha) : isSchemeChar c := by
  simp [isSchemeChar, Char.isAlphanum, h]

theorem splitScheme?_append_colon {letter : Char} {scheme : List Char} (hl : letter.isAlpha)
    (hs : ∀ c ∈ scheme, isSchemeChar c) (rest : List Char) :
    splitScheme? (letter :: scheme ++ ':' :: rest) = some (letter :: scheme, ':' :: rest) := by
  have hall : ∀ c ∈ letter :: scheme, isSchemeChar c :=
    List.forall_mem_cons.2 ⟨isSchemeChar_of_isAlpha hl, hs⟩
  have hcolon : Stops isSchemeChar (':' :: rest) := stops_cons.2 (by decide)
  have htake := takeWhile_append_stops hall hcolon
  have hdrop := dropWhile_append_stops hall hcolon
  simp only [List.cons_append] at htake hdrop ⊢
  simp only [splitScheme?, hl, htake, hdrop, ↓reduceIte]

/-- A scheme that is split off begins with a letter and has none but its characters. -/
theorem splitScheme?_spec {scheme : List Char} (h : splitScheme? cs = some (scheme, rest)) :
    ∃ letter tail, scheme = letter :: tail ∧ letter.isAlpha ∧ ∀ c ∈ tail, isSchemeChar c := by
  unfold splitScheme? at h
  split at h
  · next letter tail =>
    split at h
    · next hl =>
      obtain ⟨rfl, -⟩ := Prod.mk.inj (Option.some.inj h)
      refine ⟨letter, tail.takeWhile isSchemeChar, ?_, hl, fun c hc => List.mem_takeWhile_imp hc⟩
      rw [List.takeWhile_cons_of_pos (isSchemeChar_of_isAlpha hl)]
    · cases h
  · cases h

theorem splitOrigin?_append_of_isOrigin (ho : IsOrigin origin) (hrest : BeginsPath rest) :
    splitOrigin? (origin ++ rest) = some (origin, rest) := by
  cases ho with
  | @relative authority ha =>
    have hsplit := splitAuthority_append ha hrest
    simp [splitOrigin?, hsplit]
  | @absolute letter scheme authority hl hs ha =>
    have hsplit := splitAuthority_append ha hrest
    have hscheme := splitScheme?_append_colon hl hs ('/' :: '/' :: (authority ++ rest))
    have hslash : letter ≠ '/' := by
      rintro rfl
      exact absurd hl (by decide)
    simp only [List.cons_append, List.append_assoc] at hscheme ⊢
    rw [splitOrigin?]
    · simp [hscheme, hsplit]
    · intro tail htail
      exact hslash (List.cons.inj htail).1

theorem isOrigin_of_splitOrigin? (h : splitOrigin? cs = some (origin, rest)) :
    IsOrigin origin ∧ BeginsPath rest := by
  unfold splitOrigin? at h
  split at h
  · next tail =>
    obtain ⟨authority, path, hsplit, -, ha, hpath⟩ := splitAuthority_spec tail
    rw [hsplit] at h
    obtain ⟨rfl, rfl⟩ := Prod.mk.inj (Option.some.inj h)
    exact ⟨.relative ha, hpath⟩
  · split at h
    · next scheme tail hs =>
      obtain ⟨authority, path, hsplit, -, ha, hpath⟩ := splitAuthority_spec tail
      obtain ⟨letter, others, rfl, hl, hothers⟩ := splitScheme?_spec hs
      rw [hsplit] at h
      obtain ⟨rfl, rfl⟩ := Prod.mk.inj (Option.some.inj h)
      exact ⟨.absolute hl hothers ha, hpath⟩
    · cases h

/-- A head is split into an origin and a path exactly when it is made of the two. -/
theorem splitOrigin?_eq_some_iff :
    splitOrigin? cs = some (origin, rest) ↔
      cs = origin ++ rest ∧ IsOrigin origin ∧ BeginsPath rest := by
  constructor
  · intro h
    exact ⟨(splitOrigin?_append h).symm, isOrigin_of_splitOrigin? h⟩
  · rintro ⟨rfl, ho, hrest⟩
    exact splitOrigin?_append_of_isOrigin ho hrest

theorem splitOrigin?_eq_none_iff :
    splitOrigin? cs = none ↔
      ¬ ∃ origin rest, cs = origin ++ rest ∧ IsOrigin origin ∧ BeginsPath rest := by
  rw [Option.eq_none_iff_forall_ne_some]
  constructor
  · rintro h ⟨origin, rest, hcs⟩
    exact h (origin, rest) (splitOrigin?_eq_some_iff.2 hcs)
  · rintro h ⟨origin, rest⟩ hsplit
    exact h ⟨origin, rest, splitOrigin?_eq_some_iff.1 hsplit⟩

/-! ### Allowed origins -/

/-- The authority of an origin: what stands behind its first colon with two slashes. -/
def IsAuthorityOf (authority origin : List Char) : Prop :=
  ∃ scheme, origin = scheme ++ ':' :: '/' :: '/' :: authority ∧
    ∀ front back, origin = front ++ ':' :: '/' :: '/' :: back → scheme.length ≤ front.length

theorem authority?_eq_some_iff :
    authority? cs = some authority ↔ IsAuthorityOf authority cs := by
  induction cs using authority?.induct generalizing authority with
  | case1 => simp [authority?, IsAuthorityOf]
  | case2 tail =>
    rw [authority?, Option.some.injEq]
    constructor
    · rintro rfl
      exact ⟨[], rfl, fun _ _ _ => Nat.zero_le _⟩
    · rintro ⟨scheme, hcs, hfirst⟩
      obtain rfl : scheme = [] := List.length_eq_zero_iff.1 (Nat.le_zero.1 (hfirst [] tail rfl))
      simpa using hcs
  | case3 c tail hmark ih =>
    have hfront : ∀ {front back}, c :: tail = front ++ ':' :: '/' :: '/' :: back →
        ∃ front', front = c :: front' ∧ tail = front' ++ ':' :: '/' :: '/' :: back := by
      intro front back heq
      cases front with
      | nil =>
        obtain ⟨rfl, rfl⟩ := List.cons.inj heq
        exact absurd rfl (hmark back rfl)
      | cons d front' =>
        obtain ⟨rfl, htail⟩ := List.cons.inj heq
        exact ⟨front', rfl, htail⟩
    rw [authority?, ih]
    · constructor
      · rintro ⟨scheme, rfl, hfirst⟩
        refine ⟨c :: scheme, rfl, fun front back heq => ?_⟩
        obtain ⟨front', rfl, htail⟩ := hfront heq
        exact Nat.succ_le_succ (hfirst front' back htail)
      · rintro ⟨scheme, heq, hfirst⟩
        obtain ⟨scheme', rfl, htail⟩ := hfront heq
        refine ⟨scheme', htail, fun front back hback => ?_⟩
        exact Nat.le_of_succ_le_succ (hfirst (c :: front) back (by rw [hback]; rfl))
    · exact hmark

/-- An origin that requests may go to: a configured one, or the authority of a configured one behind
two slashes. Case and slashes at the end do not count. -/
inductive OnAllowedOrigin (config : Config) (origin : List Char) : Prop where
  | same {allowed : String} : allowed ∈ config.allowedOrigins →
      origin.map Char.toLower = normalOrigin allowed → OnAllowedOrigin config origin
  | authority {allowed : String} {authority : List Char} : allowed ∈ config.allowedOrigins →
      origin = '/' :: '/' :: authority →
      IsAuthorityOf (authority.map Char.toLower) (normalOrigin allowed) →
      OnAllowedOrigin config origin

theorem toLower_eq_slash {c : Char} (h : c.toLower = '/') : c = '/' := by
  unfold Char.toLower at h
  split at h
  · next hupper =>
    have hlow : 65 ≤ c.toNat := UInt32.le_iff_toNat_le.1 hupper.1
    have hhigh : c.toNat ≤ 90 := UInt32.le_iff_toNat_le.1 hupper.2
    have hval := congrArg (fun d : Char => d.val.toNat) h
    simp [UInt32.toNat_add] at hval
    omega
  · exact h

theorem isAlpha_toLower_ne_slash {c : Char} (h : c.isAlpha) : c.toLower ≠ '/' := by
  intro heq
  rw [toLower_eq_slash heq] at h
  exact absurd h (by decide)

/-- An origin without a scheme goes by its authority, besides what is configured as it is. -/
theorem matchesOrigin_iff (ho : IsOrigin origin) {allowed : List Char} :
    matchesOrigin allowed (origin.map Char.toLower) ↔
      origin.map Char.toLower = allowed ∨
        ∃ authority, origin = '/' :: '/' :: authority ∧
          IsAuthorityOf (authority.map Char.toLower) allowed := by
  unfold matchesOrigin
  rw [Bool.or_eq_true, beq_iff_eq, eq_comm (a := allowed)]
  refine or_congr Iff.rfl ?_
  cases ho with
  | @relative authority ha =>
    have hlower : ('/' :: '/' :: authority).map Char.toLower =
        '/' :: '/' :: authority.map Char.toLower := rfl
    simp only [hlower, beq_iff_eq, authority?_eq_some_iff]
    constructor
    · intro h
      exact ⟨authority, rfl, h⟩
    · rintro ⟨authority', heq, h⟩
      obtain rfl : authority = authority' := by simpa using heq
      exact h
  | @absolute letter scheme authority hl hs ha =>
    have hslash := isAlpha_toLower_ne_slash hl
    constructor
    · intro h
      split at h
      · next heq => exact absurd (List.cons.inj heq).1 hslash
      · cases h
    · rintro ⟨authority', heq, -⟩
      have hletter : letter = '/' := (List.cons.inj heq).1
      exact absurd (hletter ▸ hl) (by decide)

theorem onAllowedOrigin_iff {config : Config} (ho : IsOrigin origin) :
    OnAllowedOrigin config origin ↔
      config.allowedOrigins.any fun allowed =>
        matchesOrigin (normalOrigin allowed) (origin.map Char.toLower) := by
  rw [List.any_eq_true]
  constructor
  · rintro (⟨hmem, heq⟩ | ⟨hmem, heq, hauthority⟩)
    · exact ⟨_, hmem, (matchesOrigin_iff ho).2 (Or.inl heq)⟩
    · exact ⟨_, hmem, (matchesOrigin_iff ho).2 (Or.inr ⟨_, heq, hauthority⟩)⟩
  · rintro ⟨allowed, hmem, hmatches⟩
    rcases (matchesOrigin_iff ho).1 hmatches with heq | ⟨authority, heq, hauthority⟩
    · exact .same hmem heq
    · exact .authority hmem heq hauthority

/-- A URL is allowed exactly when every origin that it begins with is. -/
theorem isAllowed_iff {config : Config} {url : String} :
    isAllowed config url ↔
      ∀ origin rest, head url.toList = origin ++ rest → IsOrigin origin → BeginsPath rest →
        OnAllowedOrigin config origin := by
  rw [isAllowed, origin?]
  cases hsplit : splitOrigin? (head url.toList) with
  | none =>
    refine iff_of_true rfl fun origin rest hhead ho hrest => ?_
    exact absurd ⟨origin, rest, hhead, ho, hrest⟩ (splitOrigin?_eq_none_iff.1 hsplit)
  | some found =>
    obtain ⟨origin, rest⟩ := found
    obtain ⟨hhead, ho, hrest⟩ := splitOrigin?_eq_some_iff.1 hsplit
    simp only [Option.map_some]
    rw [← onAllowedOrigin_iff ho]
    constructor
    · intro hallowed origin' rest' hhead' ho' hrest'
      have hagain := splitOrigin?_eq_some_iff.2 ⟨hhead', ho', hrest'⟩
      rw [hsplit] at hagain
      obtain ⟨rfl, -⟩ := Prod.mk.inj (Option.some.inj hagain)
      exact hallowed
    · intro h
      exact h origin rest hhead ho hrest

end CallBridge.Url
