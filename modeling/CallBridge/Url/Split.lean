/-!
# Parts of a URL

The head of a URL ends at its query or fragment. A head may begin with an origin: two slashes, with
a scheme in front of them or without, and an authority that ends at the next slash. `path` is what
is left of the head, `query?` the text between the first question mark and the fragment.
-/

namespace CallBridge.Url

/-- Whether a character ends the head of a URL. -/
def endsHead (c : Char) : Bool := c == '?' || c == '#'

/-- The text in front of the query and the fragment. -/
def head (url : List Char) : List Char := url.takeWhile fun c => !endsHead c

/-- A character of a scheme. -/
def isSchemeChar (c : Char) : Bool := c.isAlphanum || c == '+' || c == '-' || c == '.'

/-- Splits a scheme, which begins with a letter, from the text behind it. -/
def splitScheme? (cs : List Char) : Option (List Char × List Char) :=
  match cs with
  | c :: _ =>
    if c.isAlpha then some (cs.takeWhile isSchemeChar, cs.dropWhile isSchemeChar) else none
  | [] => none

/-- Splits an authority from the path that begins at its first slash. -/
def splitAuthority (cs : List Char) : List Char × List Char :=
  (cs.takeWhile (· != '/'), cs.dropWhile (· != '/'))

/-- Splits a head into its origin and its path. -/
def splitOrigin? (cs : List Char) : Option (List Char × List Char) :=
  match cs with
  | '/' :: '/' :: rest =>
    let (authority, path) := splitAuthority rest
    some ('/' :: '/' :: authority, path)
  | _ =>
    match splitScheme? cs with
    | some (scheme, ':' :: '/' :: '/' :: rest) =>
      let (authority, path) := splitAuthority rest
      some (scheme ++ ':' :: '/' :: '/' :: authority, path)
    | _ => none

/-- Scheme and authority of an absolute URL, or the authority behind its two slashes; a relative
URL has no origin. -/
def origin? (url : List Char) : Option (List Char) := (splitOrigin? (head url)).map Prod.fst

/-- The path of a URL; behind an origin at least a slash. -/
def path (url : List Char) : List Char :=
  match splitOrigin? (head url) with
  | some (_, []) => ['/']
  | some (_, rest) => rest
  | none => head url

/-- The text behind the first question mark in front of the fragment, unless it is empty. -/
def query? (url : List Char) : Option (List Char) :=
  match (url.takeWhile (· != '#')).dropWhile (· != '?') with
  | _ :: c :: rest => some (c :: rest)
  | _ => none

theorem splitScheme?_append {cs scheme rest : List Char}
    (h : splitScheme? cs = some (scheme, rest)) : scheme ++ rest = cs := by
  unfold splitScheme? at h
  split at h
  · split at h
    · simp only [Option.some.injEq, Prod.mk.injEq] at h
      rw [← h.1, ← h.2, List.takeWhile_append_dropWhile]
    · simp at h
  · simp at h

/-- An origin and a path make up their head. -/
theorem splitOrigin?_append {cs origin rest : List Char}
    (h : splitOrigin? cs = some (origin, rest)) : origin ++ rest = cs := by
  unfold splitOrigin? at h
  split at h
  · simp only [splitAuthority, Option.some.injEq, Prod.mk.injEq] at h
    rw [← h.1, ← h.2]
    simp
  · split at h
    next scheme tail hs =>
      simp only [splitAuthority, Option.some.injEq, Prod.mk.injEq] at h
      rw [← splitScheme?_append hs, ← h.1, ← h.2]
      simp
    · simp at h

end CallBridge.Url
