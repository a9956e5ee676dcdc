import Camp.Wire.Url
import Camp.Wire.Sha256
import Camp.Program.Checks
import Camp.Program.Paths
import Camp.Wire.Words

/-!
# Backends

A backend is a directory or a bucket. Its URL and the values of its bucket are checked
and brought into one form, and the fingerprint is the digest of that form.
-/

namespace Camp.CampConfig

open Wire Wire.Utf8 Wire.Url Wire.Sha256 Wire.Words Program.Checks Program.Paths List

section Model

inductive BackendKind where
  | file
  | s3
  deriving DecidableEq

structure S3Values where
  endpoint : Bytes
  region : Bytes
  pathStyle : Bool
  insecure : Bool

structure FileBackend where
  root : Bytes
  sanitizedURL : Bytes
  fingerprint : Bytes
  deriving DecidableEq

structure S3Backend where
  endpoint : Bytes
  region : Bytes
  bucket : Bytes
  keyPrefix : Bytes
  pathStyle : Bool
  insecure : Bool
  deriving DecidableEq

structure Backend where
  kind : BackendKind
  sanitizedURL : Bytes
  fingerprint : Bytes
  file : Option FileBackend
  s3 : Option S3Backend
  deriving DecidableEq

/-- What is said of a backend that is refused, perhaps before the reason for which its URL cannot be parsed. -/
inductive BackendError where
  | message (text : String)
  | parse (text : String)
  deriving DecidableEq

def trimmed (s : Bytes) : Bool := trim isSpaceRune (symbols s) == symbols s

/-- Whether the text is a URL of the scheme without blanks around it and without escapes. -/
def strict (scheme raw : Bytes) : Bool := trimmed raw && scheme.isPrefixOf raw && !raw.contains 37

def fileBackend (root : Bytes) : FileBackend := ⟨root, lit "file://" ++ root, sha256Hex (lit "file\x00" ++ root)⟩

def onlyPath (u : URL) : Bool :=
  u.scheme == lit "file" && u.host == [] && u.user.isNone && u.remainder == [] &&
    u.rawQuery == [] && u.fragment == [] &&
    u.rawPath == []

def cleanRoot (root path : Bytes) : Bool := rooted root && root != [slash] && root == path && !root.contains 0

def resolveFileBackend (raw : Bytes) : Except BackendError FileBackend := do
  refuse (!strict (lit "file:///") raw) (.message "file backend must be an unescaped absolute file:/// URL")
  let parsed ← (parse raw).elim (.error (.parse "parse file backend")) .ok
  refuse (!onlyPath parsed) (.message "file backend URL may contain only an absolute local path")
  let root := clean parsed.path
  refuse (!cleanRoot root parsed.path) (.message "file backend root must be a clean non-root absolute path")
  return fileBackend root

def bucketByte (b : UInt8) : Bool := (97 ≤ b && b ≤ 122) || digit b

def validBucket (bucket : Bytes) : Bool :=
  3 ≤ bucket.length && bucket.length ≤ 63 && !decide (lit ".." <:+: bucket) && !isIP bucket &&
    bucket.zipIdx.all fun (b, index) => bucketByte b || ((b == 45 || b == 46) && 0 < index && index < bucket.length - 1)

def hasUnsafeSegment (value : Bytes) : Bool :=
  (value.splitOn slash).any fun segment =>
    segment == [] || segment == dot || segment == dotDot || segment.contains 0 || segment.contains 92

def sprint (b : Bool) : Bytes := if b then lit "true" else lit "false"

def S3Backend.sanitizedURL (s : S3Backend) : Bytes :=
  lit "s3://" ++ (s.bucket ++ if s.keyPrefix = [] then [] else slash :: s.keyPrefix)

def S3Backend.identity (s : S3Backend) : Bytes :=
  [0].intercalate [lit "s3", s.endpoint, s.region, s.bucket, s.keyPrefix, sprint s.pathStyle, sprint s.insecure]

def FileBackend.backend (f : FileBackend) : Backend := ⟨.file, f.sanitizedURL, f.fingerprint, some f, none⟩

def S3Backend.backend (s : S3Backend) : Backend := ⟨.s3, s.sanitizedURL, sha256Hex s.identity, none, some s⟩

def onlyBucket (u : URL) : Bool :=
  u.scheme == lit "s3" && u.host != [] && u.user.isNone && u.rawQuery == [] && u.fragment == [] && u.rawPath == [] &&
    !u.host.any fun b => b == 47 || b == 92

def keyPrefix (u : URL) : Bytes := trim (· == slash) u.path

def safePrefix (u : URL) : Bool :=
  u.path == [] || u.path == [slash] || (keyPrefix u != [] && !hasUnsafeSegment (keyPrefix u))

def isOrigin (u : URL) : Bool :=
  (u.scheme == lit "http" || u.scheme == lit "https") && u.host != [] && u.user.isNone &&
    u.path == [] && u.rawQuery == [] &&
    u.fragment == []

/-- Whether the values go with the bucket and the endpoint. -/
def consistent (bucket : Bytes) (endpoint : URL) (values : S3Values) : Except BackendError Unit := do
  refuse (values.insecure != (endpoint.scheme == lit "http"))
    (.message "S3 HTTP endpoints require explicit insecure policy and HTTPS endpoints forbid it")
  refuse (!validBucket bucket) (.message "S3 bucket must be a DNS-compatible name")
  refuse (endpoint.scheme == lit "https" && !values.pathStyle && bucket.contains 46)
    (.message "dotted S3 buckets require path-style addressing with HTTPS")
  refuse (isIP endpoint.hostname && !values.pathStyle)
    (.message "IP-literal S3 endpoints require path-style addressing")
  refuse (values.region == [] || !trimmed values.region) (.message "S3 region is required")

def s3Backend (u endpoint : URL) (values : S3Values) : S3Backend :=
  ⟨endpoint.originText, values.region, u.host, keyPrefix u, values.pathStyle, values.insecure⟩

def resolveBackend (raw : Bytes) (values : S3Values) : Except BackendError Backend :=
  if (lit "file:").isPrefixOf raw then (resolveFileBackend raw).map FileBackend.backend
  else do
    refuse (!strict (lit "s3://") raw) (.message "backend must be a strict file:/// or s3:// URL")
    let parsed ← (parse raw).elim (.error (.parse "parse S3 backend")) .ok
    refuse (!onlyBucket parsed) (.message "S3 backend URL may contain only bucket and prefix")
    refuse (!safePrefix parsed) (.message "S3 backend prefix is unsafe")
    let endpoint ← (parse values.endpoint).elim
        (.error (.message "S3 endpoint must be a credential-free HTTP(S) origin")) .ok
    refuse (!isOrigin endpoint) (.message "S3 endpoint must be a credential-free HTTP(S) origin")
    consistent parsed.host endpoint values
    return (s3Backend parsed endpoint values).backend

/-- The values that a descriptor was resolved with, as it tells them. -/
def Backend.values (b : Backend) : S3Values :=
  b.s3.elim ⟨[], [], false, false⟩ fun s => ⟨s.endpoint, s.region, s.pathStyle, s.insecure⟩

/-- The text that the fingerprint is the digest of. -/
def Backend.identity (b : Backend) : Bytes :=
  b.s3.elim (lit "file\x00" ++ (b.file.elim [] FileBackend.root)) S3Backend.identity

end Model

section Texts

variable {s : Bytes}

theorem trimmed_of_plain (h : ∀ b ∈ s, 32 < b ∧ b < 127) : trimmed s = true := by
  have hByte : ∀ b : UInt8, 32 < b ∧ b < 127 → b.toNat < 0x80 ∧ isSpaceRune (some (Char.ofNat b.toNat)) = false := by
    refine forall_byte ?_
    decide +kernel
  have hNone : ∀ x ∈ symbols s, isSpaceRune x = false := by
    induction s with
    | nil => simp [symbols, symbolsFuel]
    | cons b s ih =>
      obtain ⟨hb, hs⟩ := forall_mem_cons.mp h
      obtain ⟨hLow, hSpace⟩ := hByte b hb
      rw [symbols_cons, rune_ascii hLow, forall_mem_cons]
      exact ⟨hSpace, ih hs⟩
  have hTrim : trim isSpaceRune ([] ++ symbols s ++ []) = symbols s :=
    trim_between (by simp) (by simp) (fun x hx => hNone x (mem_of_mem_head? hx)) fun x hx =>
      hNone x (mem_of_mem_getLast? hx)
  rw [nil_append, append_nil] at hTrim
  simp [trimmed, hTrim]

theorem elim_eq_ok {α ε : Type} {o : Option α} {e : ε} {a : α} : o.elim (.error e) Except.ok = .ok a ↔ o = some a := by
  cases o <;> simp

end Texts

section File

variable {raw : Bytes} {f : FileBackend}

theorem resolveFileBackend_ok : resolveFileBackend raw = .ok f ↔ strict (lit "file:///") raw = true ∧
    ∃ u, parse raw = some u ∧ onlyPath u = true ∧ cleanRoot (clean u.path) u.path = true ∧
    f = fileBackend (clean u.path) := by
  simp only [resolveFileBackend, refuse_eq_ok, bind_eq_ok, elim_eq_ok, Bool.not_eq_false',
    pure, Except.pure, Except.ok.injEq,
    exists_const, @eq_comm _ f]

/-- The text after the scheme, where the URL is not a relative one or an opaque one. -/
theorem plain_of_parse {u : URL} (h : parse raw = some u) (hPercent : 37 ∉ raw) (hScheme : u.scheme ≠ [])
    (hQuery : u.rawQuery = [])
    (hFragment : u.fragment = []) (hRaw : u.rawPath = []) : ∀ b ∈ u.path, shouldEscape .path b = false := by
  obtain ⟨scheme, rest, tail, rfl, -, -, hRest⟩ := exists_of_parse h hScheme hQuery hFragment
  rcases hRest with ⟨-, hNone⟩ | hRest
  · simp [hNone]
  · exact path_of_hierarchy hRest hRaw fun hMem => hPercent (by simp [hMem])

theorem strict_of_plain (scheme : Bytes) (hScheme : scheme.all (fun b => 32 < b && b < 127 && b != 37) = true)
    {s : Bytes} (hs : ∀ b ∈ s, shouldEscape .path b = false) : strict scheme (scheme ++ s) = true := by
  have hAll : ∀ b ∈ scheme ++ s, (32 < b ∧ b < 127) ∧ b ≠ 37 := by
    intro b hb
    rcases mem_append.mp hb with hb | hb
    · simpa using all_eq_true.mp hScheme b hb
    · obtain ⟨-, -, hPercent, -, hShown⟩ := (shown_byte b).2 (hs b hb)
      exact ⟨hShown, hPercent⟩
  have hTrimmed := trimmed_of_plain fun b hb => (hAll b hb).1
  have hPercent : 37 ∉ scheme ++ s := fun hMem => (hAll 37 hMem).2 rfl
  simp only [strict, hTrimmed, isPrefixOf_iff_prefix.mpr (prefix_append scheme s),
    contains_eq_mem, hPercent]
  rfl

theorem percent_of_strict {scheme : Bytes} (h : strict scheme raw = true) : 37 ∉ raw := by
  simp only [strict, Bool.and_eq_true, Bool.not_eq_true', contains_eq_mem, decide_eq_false_iff_not] at h
  exact h.2

theorem resolveFileBackend_again (h : resolveFileBackend raw = .ok f) :
    f = fileBackend f.root ∧ resolveFileBackend f.sanitizedURL = .ok f := by
  obtain ⟨hStrict, u, hParse, hOnly, hRoot, rfl⟩ := resolveFileBackend_ok.mp h
  have hPercent : 37 ∉ raw := percent_of_strict hStrict
  simp only [onlyPath, Bool.and_eq_true, beq_iff_eq] at hOnly
  have hSame : clean u.path = u.path := by
    simp only [cleanRoot, Bool.and_eq_true, beq_iff_eq] at hRoot
    exact hRoot.1.2
  have hScheme : u.scheme ≠ [] := by
    rw [hOnly.1.1.1.1.1.1]
    decide
  have hPlain := plain_of_parse hParse hPercent hScheme hOnly.1.1.2 hOnly.1.2 hOnly.2
  rw [hSame] at hRoot ⊢
  obtain ⟨rest, hRest⟩ : ∃ rest, u.path = slash :: rest := by
    simp only [cleanRoot, rooted, Bool.and_eq_true, beq_iff_eq] at hRoot
    exact ⟨_, eq_cons_of_mem_head? hRoot.1.1.1⟩
  have hAgain : parse (lit "file://" ++ u.path) = some { URL.empty with scheme := lit "file", path := u.path } := by
    have hText := parse_text (lit "file") [] u.path (by decide) (by simp) (by rw [hRest]; rfl) hPlain false
    rw [if_neg (by decide), append_nil] at hText
    exact hText
  refine ⟨rfl, resolveFileBackend_ok.mpr ⟨?_, _, hAgain, by simp [onlyPath, URL.empty], ?_, ?_⟩⟩
  · have hStrict := strict_of_plain (lit "file:///") (by decide) (s := rest) fun b hb => hPlain b (by simp [hRest, hb])
    rw [fileBackend, hRest]
    exact hStrict
  · rw [hSame]
    exact hRoot
  · rw [hSame]

end File

section S3

variable {raw : Bytes} {values : S3Values} {b : Backend} {u endpoint : URL}
variable {bucket : Bytes}

theorem resolveBackend_s3 (hRaw : (lit "file:").isPrefixOf raw = false) : resolveBackend raw values = .ok b ↔
    strict (lit "s3://") raw = true ∧ ∃ u, parse raw = some u ∧ onlyBucket u = true ∧ safePrefix u = true ∧
      ∃ endpoint, parse values.endpoint = some endpoint ∧ isOrigin endpoint = true ∧
      (∃ done, consistent u.host endpoint values = .ok done) ∧
        b = (s3Backend u endpoint values).backend := by
  rw [resolveBackend, hRaw, if_neg (by decide)]
  simp only [refuse_eq_ok, bind_eq_ok, elim_eq_ok, Bool.not_eq_false', pure, Except.pure, Except.ok.injEq, exists_const,
    exists_and_right, @eq_comm _ b]

theorem mem_bucket {c : UInt8} (h : validBucket bucket = true) (hc : c ∈ bucket) :
    bucketByte c = true ∨ c = 45 ∨ c = 46 := by
  obtain ⟨i, hi⟩ := mem_iff_getElem?.mp hc
  simp only [validBucket, Bool.and_eq_true, all_eq_true] at h
  have hByte := h.2 (c, i) (mem_zipIdx_iff_getElem?.mpr hi)
  simp only [Bool.or_eq_true, Bool.and_eq_true, beq_iff_eq] at hByte
  exact hByte.imp_right fun hMark => hMark.1.1

theorem bucketByte_plain : ∀ c : UInt8, bucketByte c = true ∨ c = 45 ∨ c = 46 → shouldEscape .path c = false ∧
    forbids .host c = false ∧ control c = false ∧ c ∉ [37, 91, 58, 47, 63, 35, 64] := by
  refine forall_byte ?_
  decide +kernel

theorem parseHost_bucket (h : validBucket bucket = true) : parseHost bucket = some bucket := by
  have hPlain (c : UInt8) (hc : c ∈ bucket) := bucketByte_plain c (mem_bucket h hc)
  have hNot (x : UInt8) (hx : x ∈ [37, 91, 58, 47, 63, 35, 64]) : x ∉ bucket := fun hMem => (hPlain x hMem).2.2.2 hx
  have hPort : bucket.dropWhile (· ≠ 58) = [] := by
    refine dropWhile_eq_nil_iff.mpr fun c hc => decide_eq_true ?_
    rintro rfl
    exact hNot 58 (by decide) hc
  refine (parseHost_name (hNot 91 (by decide))).mpr ⟨by rw [hPort]; rfl, ?_⟩
  exact unescape_plain (fun c hc => (hPlain c hc).2.1) (hNot 37 (by decide))

/-- What the URL of a descriptor is read as. -/
def restated (u : URL) : URL :=
  { URL.empty with scheme := lit "s3", host := u.host, path := if keyPrefix u = [] then [] else slash :: keyPrefix u }

theorem keyPrefix_restated (u : URL) : keyPrefix (restated u) = keyPrefix u := by
  show trim (· == slash) (if keyPrefix u = [] then [] else slash :: keyPrefix u) = keyPrefix u
  split_ifs with hNil
  · rw [hNil]
    rfl
  · have hEnds : (∀ c ∈ (keyPrefix u).head?, (c == slash) = false) ∧
        ∀ c ∈ (keyPrefix u).getLast?, (c == slash) = false :=
      ⟨fun c hc => @blank_head_trim _ (· == slash) _ _ hc, fun c hc => @blank_last_trim _ (· == slash) _ _ hc⟩
    have hTrim : trim (· == slash) ([slash] ++ keyPrefix u ++ []) = keyPrefix u :=
        trim_between (by simp) (by simp) hEnds.1 hEnds.2
    rwa [append_nil] at hTrim

theorem accepts_restated (hOnly : onlyBucket u = true) (hSafe : safePrefix u = true) :
    onlyBucket (restated u) = true ∧ safePrefix (restated u) = true := by
  constructor
  · simp only [onlyBucket, Bool.and_eq_true] at hOnly ⊢
    exact ⟨⟨⟨⟨⟨⟨beq_self_eq_true _, hOnly.1.1.1.1.1.2⟩, rfl⟩, rfl⟩, rfl⟩, rfl⟩, hOnly.2⟩
  · rw [safePrefix, keyPrefix_restated]
    by_cases hNil : keyPrefix u = []
    · simp [restated, hNil]
    · have hPath : u.path ≠ [] ∧ u.path ≠ [slash] := by
        constructor <;> intro hEq <;> exact hNil (by rw [keyPrefix, hEq]; rfl)
      simp only [safePrefix, Bool.or_eq_true, beq_iff_eq, hPath.1, hPath.2, false_or] at hSafe
      rw [hSafe, Bool.or_true]

theorem plain_of_bucket (hStrict : strict (lit "s3://") raw = true) (hParse : parse raw = some u)
    (hOnly : onlyBucket u = true) :
    ∀ c ∈ u.path, shouldEscape .path c = false := by
  simp only [onlyBucket, Bool.and_eq_true, beq_iff_eq] at hOnly
  have hScheme : u.scheme ≠ [] := by
    rw [hOnly.1.1.1.1.1.1]
    decide
  exact plain_of_parse hParse (percent_of_strict hStrict) hScheme hOnly.1.1.1.2 hOnly.1.1.2 hOnly.1.2

theorem parse_restated (endpoint : URL) (values : S3Values) (hPlain : ∀ c ∈ u.path, shouldEscape .path c = false)
    (hBucket : validBucket u.host = true) : strict (lit "s3://") (s3Backend u endpoint values).sanitizedURL = true ∧
      parse (s3Backend u endpoint values).sanitizedURL = some (restated u) := by
  have hHost (c : UInt8) (hc : c ∈ u.host) := bucketByte_plain c (mem_bucket hBucket hc)
  have hPath : ∀ c ∈ (restated u).path, shouldEscape .path c = false := by
    intro c hc
    simp only [restated] at hc
    split_ifs at hc
    · cases hc
    · rcases mem_cons.mp hc with rfl | hc
      · decide
      · exact hPlain c (mem_of_mem_trim hc)
  constructor
  · exact strict_of_plain (lit "s3://") (by decide) (forall_mem_append.mpr ⟨fun c hc => (hHost c hc).1, hPath⟩)
  · have hText := parse_text (lit "s3") u.host (restated u).path (by decide)
      (fun c hc => ⟨fun hMem => (hHost c hc).2.2.2 (by grind), (hHost c hc).2.2.1⟩)
        (by simp only [restated]; split_ifs <;> rfl) hPath false
    rw [if_neg (by decide), append_nil, parseHost_bucket hBucket] at hText
    exact hText

theorem scheme_of_isOrigin (h : isOrigin u = true) : properScheme u.scheme = true := by
  simp only [isOrigin, Bool.and_eq_true, Bool.or_eq_true, beq_iff_eq] at h
  rcases h.1.1.1.1.1 with hEq | hEq <;> rw [hEq] <;> decide

theorem bucket_of_consistent {done : Unit} (h : consistent bucket endpoint values = .ok done) :
    validBucket bucket = true := by
  simp only [consistent, bind_eq_ok, refuse_eq_ok, Bool.not_eq_false', exists_const] at h
  exact h.2.1

theorem resolveBackend_again_s3 (hRaw : (lit "file:").isPrefixOf raw = false) (h : resolveBackend raw values = .ok b) :
    resolveBackend b.sanitizedURL b.values = .ok b ↔ Portable values.endpoint := by
  obtain ⟨hStrict, u, hParse, hOnly, hSafe, endpoint, hEndpoint, hOrigin, ⟨done, hConsistent⟩, rfl⟩ :=
      (resolveBackend_s3 hRaw).mp h
  have hShown := parse_restated endpoint values (plain_of_bucket hStrict hParse hOnly)
      (bucket_of_consistent hConsistent)
  have hProper := scheme_of_isOrigin hOrigin
  have hAgain (found : URL) : parse endpoint.originText = some found ↔ found = endpoint ∧ Portable values.endpoint := by
    have hParts := hOrigin
    simp only [isOrigin, Bool.and_eq_true, beq_iff_eq, bne_iff_ne, Option.isNone_iff_eq_none] at hParts
    exact parse_originText hEndpoint hProper hParts.1.1.1.1.2 hParts.1.1.1.2 hParts.1.1.2 hParts.1.2 hParts.2
  refine (resolveBackend_s3 rfl).trans ⟨?_, fun hPortable => ?_⟩
  · rintro ⟨-, -, -, -, -, found, hFound, -⟩
    exact ((hAgain found).mp hFound).2
  · obtain ⟨hOnly', hSafe'⟩ := accepts_restated hOnly hSafe
    refine ⟨hShown.1, restated u, hShown.2, hOnly', hSafe', endpoint, (hAgain endpoint).mpr ⟨rfl, hPortable⟩, hOrigin,
      ⟨done, hConsistent⟩, ?_⟩
    rw [s3Backend, s3Backend, keyPrefix_restated]
    rfl

theorem resolveBackend_again_file (hRaw : (lit "file:").isPrefixOf raw = true) (h : resolveBackend raw values = .ok b) :
    resolveBackend b.sanitizedURL b.values = .ok b := by
  rw [resolveBackend, if_pos hRaw] at h
  obtain ⟨f, hFile, rfl⟩ := map_eq_ok.mp h
  obtain ⟨hShape, hAgain⟩ := resolveFileBackend_again hFile
  have hPrefix : (lit "file:").isPrefixOf f.backend.sanitizedURL = true := by
    rw [hShape]
    rfl
  rw [resolveBackend, if_pos hPrefix]
  exact map_eq_ok.mpr ⟨f, hAgain, rfl⟩

end S3

section Identity

variable {raw : Bytes} {values : S3Values} {b b' : Backend}

/-- Only the region of a bucket can hold the byte that separates the parts of its identity. -/
def S3Backend.Separable (s : S3Backend) : Prop := 0 ∉ s.endpoint ∧ 0 ∉ s.bucket ∧ 0 ∉ s.keyPrefix

theorem sprint_injective : Function.Injective sprint := by
  intro x y h
  cases x <;> cases y <;> first | rfl | exact absurd h (by decide)

theorem identity_injective {s t : S3Backend} (hs : s.Separable) (ht : t.Separable) (h : s.identity = t.identity) :
    s = t := by
  have hSplit (s : S3Backend) :
      s.identity = lit "s3" ++ 0 :: (s.endpoint ++ 0 :: (s.region ++ 0 :: s.bucket ++ 0 :: s.keyPrefix ++
      0 :: sprint s.pathStyle ++ 0 :: sprint s.insecure)) := by
    simp [S3Backend.identity, List.intercalate]
  have hFlag (x : Bool) : 0 ∉ sprint x := by
    cases x <;> decide
  rw [hSplit, hSplit] at h
  obtain ⟨hEndpoint, h⟩ := append_cons_inj hs.1 ht.1 (List.cons.inj (append_cancel_left h)).2
  obtain ⟨h, hInsecure⟩ := append_cons_inj_right (hFlag _) (hFlag _) h
  obtain ⟨h, hStyle⟩ := append_cons_inj_right (hFlag _) (hFlag _) h
  obtain ⟨h, hPrefix⟩ := append_cons_inj_right hs.2.2 ht.2.2 h
  obtain ⟨hRegion, hBucket⟩ := append_cons_inj_right hs.2.1 ht.2.1 h
  cases s
  cases t
  cases hEndpoint
  cases hRegion
  cases hBucket
  cases hPrefix
  cases sprint_injective hStyle
  cases sprint_injective hInsecure
  rfl

theorem shape_of_resolveBackend (h : resolveBackend raw values = .ok b) :
    (∃ root, b = (fileBackend root).backend) ∨ ∃ s : S3Backend, s.Separable ∧ b = s.backend := by
  cases hRaw : (lit "file:").isPrefixOf raw with
  | true =>
    rw [resolveBackend, if_pos hRaw] at h
    obtain ⟨f, hFile, rfl⟩ := map_eq_ok.mp h
    exact Or.inl ⟨f.root, by rw [← (resolveFileBackend_again hFile).1]⟩
  | false =>
    obtain ⟨hStrict, u, hParse, hOnly, -, endpoint, -, hOrigin, ⟨done, hConsistent⟩, rfl⟩ :=
        (resolveBackend_s3 hRaw).mp h
    refine Or.inr ⟨s3Backend u endpoint values, ⟨fun hMem => ?_, fun hMem => ?_, fun hMem => ?_⟩, rfl⟩
    · exact absurd (control_of_mem_originText (scheme_of_isOrigin hOrigin) hMem) (by decide)
    · exact absurd (bucketByte_plain 0 (mem_bucket (bucket_of_consistent hConsistent) hMem)).2.2.1 (by decide)
    · exact absurd (plain_of_bucket hStrict hParse hOnly 0 (mem_of_mem_trim hMem)) (by decide)

theorem fingerprint_of_resolveBackend (h : resolveBackend raw values = .ok b) :
    b.fingerprint = sha256Hex b.identity := by
  rcases shape_of_resolveBackend h with ⟨root, rfl⟩ | ⟨s, -, rfl⟩ <;> rfl

/-- A descriptor is told by the text of its identity. -/
theorem eq_of_identity (h : resolveBackend raw values = .ok b) {raw' : Bytes} {values' : S3Values}
    (h' : resolveBackend raw' values' = .ok b') (hSame : b.identity = b'.identity) : b = b' := by
  rcases shape_of_resolveBackend h with ⟨root, rfl⟩ | ⟨s, hs, rfl⟩ <;>
    rcases shape_of_resolveBackend h' with ⟨root', rfl⟩ | ⟨s', hs', rfl⟩
  · have hText : lit "file\x00" ++ root = lit "file\x00" ++ root' := hSame
    rw [append_cancel_left hText]
  · cases hSame
  · cases hSame
  · rw [identity_injective hs hs' hSame]

/-- A descriptor is resolved to itself if its endpoint is portable, and its fingerprint tells it from every other. -/
theorem resolveBackend_stable_iff (h : resolveBackend raw values = .ok b) :
    (resolveBackend b.sanitizedURL b.values = .ok b ↔ (lit "file:").isPrefixOf raw = true ∨ Portable values.endpoint) ∧
      ∀ raw' values' b', resolveBackend raw' values' = .ok b' → Set.InjOn sha256Hex {b.identity, b'.identity} →
        b.fingerprint = b'.fingerprint → b = b' := by
  refine ⟨?_, fun raw' values' b' h' hDistinct hSame => ?_⟩
  · cases hRaw : (lit "file:").isPrefixOf raw with
    | true => exact iff_of_true (resolveBackend_again_file hRaw h) (Or.inl rfl)
    | false => simpa using resolveBackend_again_s3 hRaw h
  · rw [fingerprint_of_resolveBackend h, fingerprint_of_resolveBackend h'] at hSame
    exact eq_of_identity h h' (hDistinct (by simp) (by simp) hSame)

def sampleValues (endpoint : String) : S3Values := ⟨lit endpoint, lit "local", true, true⟩

theorem plain_endpoint_stable :
    ∃ b, resolveBackend (lit "s3://camp/kits") (sampleValues "http://127.0.0.1:9000") = .ok b ∧
    resolveBackend b.sanitizedURL b.values = .ok b := by
  have hAccepted : (resolveBackend (lit "s3://camp/kits") (sampleValues "http://127.0.0.1:9000")).toOption.isSome =
      true := by
    decide +kernel
  cases h : resolveBackend (lit "s3://camp/kits") (sampleValues "http://127.0.0.1:9000") with
  | error e =>
    rw [h] at hAccepted
    cases hAccepted
  | ok b => exact ⟨b, rfl, (resolveBackend_stable_iff h).1.mpr (Or.inr fun hMem => absurd hMem (by decide))⟩

/-- The zone of the address is written with escapes that no zone may have. -/
theorem zoned_endpoint_unstable : ∃ b, resolveBackend (lit "s3://camp") (sampleValues "http://[fe80::1%25é]") = .ok b ∧
    resolveBackend b.sanitizedURL b.values =
    .error (.message "S3 endpoint must be a credential-free HTTP(S) origin") := by
  have hRefused : (resolveBackend (lit "s3://camp") (sampleValues "http://[fe80::1%25é]")).toOption.any (fun b =>
      resolveBackend b.sanitizedURL b.values =
          .error (.message "S3 endpoint must be a credential-free HTTP(S) origin")) = true := by
    decide +kernel
  cases h : resolveBackend (lit "s3://camp") (sampleValues "http://[fe80::1%25é]") with
  | error e =>
    rw [h] at hRefused
    cases hRefused
  | ok b =>
    rw [h] at hRefused
    exact ⟨b, rfl, of_decide_eq_true hRefused⟩

end Identity

end Camp.CampConfig
