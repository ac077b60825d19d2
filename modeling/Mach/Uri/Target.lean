import Mach.Uri.Parse
/-!
# The host of a request and its target

A target in origin form begins with a slash. Where it contains `://` it is searched
for an authority, and one that begins with two slashes has one: the host of the
request gives way to it. Every other target leaves the host as it is
(`target_keeps_host_iff`).
-/

namespace Mach.Uri

open Lib.Http1 Headkit List Option

variable {host uri : List UInt8}

/-- The path and the query of a target: what stands before any `#`, cut at the first `?`. -/
def pathOf (uri : List UInt8) : List UInt8 := (uri.takeWhile (· != 35)).takeWhile (· != 63)

def queryOf (uri : List UInt8) : List UInt8 := ((uri.takeWhile (· != 35)).dropWhile (· != 63)).drop 1

/-- The request goes to the host alone, for the path and the query of the target. -/
structure Undisturbed (host uri : List UInt8) (u : URI) : Prop where
  host : (parseHost host).toOption.map lowercaseBytes = some u.host
  username : u.username = []
  password : u.password = []
  path : u.getPath = orSlash (normalizePath (pathOf uri))
  query : u.queryString = queryOf uri

/-- The target has an authority of its own. -/
def NamesAuthority (uri : List UInt8) : Prop := [47, 47] <+: uri ∧ (index (ascii "://") uri).isSome

/-! ## Searching -/

theorem findIdx?_cut {p : UInt8 → Bool} (b : List UInt8) :
    (b.findIdx? p = none → b.takeWhile (fun c => !p c) = b ∧ b.dropWhile (fun c => !p c) = []) ∧
    ∀ n, b.findIdx? p = some n → b.takeWhile (fun c => !p c) = b.take n ∧ b.dropWhile (fun c => !p c) = b.drop n := by
  rw [takeWhile_eq_take_findIdx_not, dropWhile_eq_drop_findIdx_not]
  simp only [Bool.not_not]
  refine ⟨fun h => ?_, fun n h => ?_⟩
  · rw [findIdx_eq_length.2 (findIdx?_eq_none_iff.1 h)]
    simp
  · rw [(findIdx?_eq_some_iff_findIdx_eq.1 h).2]
    exact ⟨rfl, rfl⟩

theorem splitTarget_eq (b : List UInt8) : (splitTarget b).1 = pathOf b ∧ (splitTarget b).2.1 = queryOf b := by
  unfold splitTarget pathOf queryOf
  rcases hf : b.findIdx? (· == 35) with _ | f
  · have hcut := (findIdx?_cut b).1 hf
    simp only [bne, hcut]
    rcases hq : b.findIdx? (· == 63) with _ | q
    · simp [(findIdx?_cut b).1 hq]
    · simp [Option.filter, (findIdx?_cut b).2 q hq]
  · -- a `?` counts only before the `#`
    have hcut := (findIdx?_cut b).2 f hf
    have htake : (b.take f).findIdx? (· == 63) = (b.findIdx? (· == 63)).filter fun q => (some f).all (q ≤ ·) := by
      rw [findIdx?_take]
      rcases hq : b.findIdx? (· == 63) with _ | q
      · rfl
      · have hne : q ≠ f := by
          rintro rfl
          obtain ⟨_, h63, -⟩ := findIdx?_eq_some_iff_getElem.1 hq
          obtain ⟨_, h35, -⟩ := findIdx?_eq_some_iff_getElem.1 hf
          rw [beq_iff_eq] at h63 h35
          exact absurd (h63.symm.trans h35) (by decide)
        simp [guard_eq_ite, Option.filter, Nat.lt_iff_le_and_ne, hne]
    simp only [bne, hcut]
    rw [← htake]
    rcases hq : (b.take f).findIdx? (· == 63) with _ | q
    · simp [(findIdx?_cut (b.take f)).1 hq]
    · obtain ⟨hlt, -⟩ := findIdx?_eq_some_iff_getElem.1 hq
      have hle : q ≤ f := by
        simp only [length_take] at hlt
        omega
      simp only [(findIdx?_cut (b.take f)).2 q hq, drop_drop, take_take, Nat.min_eq_left hle, and_self]

/-! ## Targets in origin form -/

/-- What stands between the first two slashes and the path, and what follows. -/
def authorityOf (uri : List UInt8) : List UInt8 := (uri.drop 2).takeWhile inAuthority

def afterAuthority (uri : List UInt8) : List UInt8 := (uri.drop 2).dropWhile inAuthority

theorem splitHostURI_named (h : NamesAuthority uri) :
    splitHostURI host uri = ([], authorityOf uri, afterAuthority uri) := by
  obtain ⟨⟨s, rfl⟩, hindex⟩ := h
  obtain ⟨n, hn⟩ := isSome_iff_exists.1 hindex
  -- the `://` lies behind the two slashes, so that there is a slash behind them
  have hslash : 47 ∈ s := by
    have hs : (index (ascii "://") s).isSome := by
      simpa [index, ascii, List.isPrefixOf] using hindex
    obtain ⟨m, hm⟩ := isSome_iff_exists.1 hs
    obtain ⟨⟨p, q, rfl, -⟩, -⟩ := index_some hm
    simp [ascii]
  obtain ⟨c, rest, hcut⟩ : ∃ c rest, s.dropWhile inAuthority = c :: rest := by
    refine exists_cons_of_ne_nil fun hnil => ?_
    have := dropWhile_eq_nil_iff.1 hnil 47 hslash
    exact absurd this (by decide)
  have hfirst : index (ascii "//") (47 :: 47 :: s) = some 0 := by
    simp [index, ascii, List.isPrefixOf]
  simp [splitHostURI, hfirst, authorityOf, afterAuthority, hcut]

theorem splitHostURI_origin (huri : uri.head? = some 47) (h : ¬ [47, 47] <+: uri) :
    splitHostURI host uri = (ascii "http", host, uri) := by
  unfold splitHostURI
  split
  · rfl
  · rename_i n hn
    refine if_pos ?_
    -- the first byte is a slash, and stands before the two
    obtain ⟨⟨_ | ⟨c, p⟩, q, rfl, rfl⟩, -⟩ := index_some hn
    · exact absurd ⟨q, rfl⟩ h
    · cases huri
      simp

theorem queryOf_append {l : List UInt8} (h : ∀ c ∈ l, c ≠ 35 ∧ c ≠ 63) (s : List UInt8) :
    queryOf (l ++ s) = queryOf s := by
  unfold queryOf
  rw [takeWhile_append_of_pos (by simpa using fun c hc => (h c hc).1),
    dropWhile_append_of_pos (by simpa using fun c hc => (h c hc).2)]

theorem queryOf_afterAuthority (h : [47, 47] <+: uri) : queryOf (afterAuthority uri) = queryOf uri := by
  obtain ⟨s, rfl⟩ := h
  have hall : ∀ c ∈ s.takeWhile inAuthority, c ≠ 35 ∧ c ≠ 63 := by
    intro c hc
    have hin := mem_takeWhile_imp hc
    simp only [inAuthority, Bool.and_eq_true, decide_eq_true_eq] at hin
    exact ⟨hin.2, hin.1.2⟩
  calc queryOf (s.dropWhile inAuthority)
      = queryOf (s.takeWhile inAuthority ++ s.dropWhile inAuthority) := (queryOf_append hall _).symm
    _ = queryOf s := by rw [takeWhile_append_dropWhile]
    _ = queryOf ([47, 47] ++ s) := (queryOf_append (by simp) s).symm

theorem parseInternal_ok {scheme host' uri' : List UInt8} {isTLS : Bool} {u : URI}
    (hsplit : (if host = [] ∨ (index (ascii "://") uri).isSome then splitHostURI host uri else ([], host, uri)) =
      (scheme, host', uri')) (hscheme : scheme = [] ∨ isValidScheme scheme) :
    parseInternal host uri isTLS = .ok u ↔ stringContainsCTLByte uri = false ∧ ∃ name password h,
      parseAuthority host' = .ok (name, password, h) ∧
      u = { scheme := lowercaseBytes (if isTLS then ascii "https" else scheme), username := name, password, host := h
            pathOriginal := pathOf uri', path := normalizePath (pathOf uri'), queryString := queryOf uri'
            hash := (splitTarget uri').2.2 } := by
  have hvalid : ¬ (scheme ≠ [] ∧ ¬ isValidScheme scheme) := by tauto
  obtain ⟨hpath, hquery⟩ := splitTarget_eq uri'
  unfold parseInternal
  rw [hsplit]
  cases hctl : stringContainsCTLByte uri
  · simp only [if_neg hvalid, ← hpath, ← hquery]
    rcases hauth : parseAuthority host' with e | ⟨name, password, h⟩
    · simp [bind, Except.bind]
    · simp [bind, Except.bind, pure, Except.pure, eq_comm]
  · simp [bind, Except.bind, throw, throwThe, MonadExceptOf.throw]

/-- A target takes the place of the host exactly if it begins with two slashes, contains
`://` and has an authority that can be parsed; unless that is the host itself,
and the path that is left amounts to the whole. -/
theorem target_keeps_host_iff (hhost : host ≠ []) (hat : 64 ∉ host) (huri : uri.head? = some 47) :
    (∀ u, parse host uri = .ok u → Undisturbed host uri u) ↔
      (NamesAuthority uri → stringContainsCTLByte uri = false → ∀ name password h,
        parseAuthority (authorityOf uri) = .ok (name, password, h) →
        (name = [] ∧ password = [] ∧ (parseHost host).toOption.map lowercaseBytes = some h) ∧
          orSlash (normalizePath (pathOf (afterAuthority uri))) = orSlash (normalizePath (pathOf uri))) := by
  by_cases hnames : NamesAuthority uri
  · have hsplit : (if host = [] ∨ (index (ascii "://") uri).isSome then splitHostURI host uri else ([], host, uri)) =
        ([], authorityOf uri, afterAuthority uri) := by
      rw [if_pos (.inr hnames.2), splitHostURI_named hnames]
    have hquery := queryOf_afterAuthority hnames.1
    constructor
    · intro h _ hctl name password host' hauth
      have hu := h _ ((parseInternal_ok hsplit (.inl rfl)).2 ⟨hctl, name, password, host', hauth, rfl⟩)
      exact ⟨⟨hu.username, hu.password, hu.host⟩, hu.path⟩
    · intro h u hu
      obtain ⟨hctl, name, password, host', hauth, rfl⟩ := (parseInternal_ok hsplit (.inl rfl)).1 hu
      obtain ⟨⟨hname, hpassword, hh⟩, hpath⟩ := h hnames hctl name password host' hauth
      exact ⟨hh, hname, hpassword, hpath, hquery⟩
  · -- the host is the one that was given
    obtain ⟨scheme, hscheme, hsplit⟩ : ∃ scheme, (scheme = [] ∨ isValidScheme scheme) ∧
        (if host = [] ∨ (index (ascii "://") uri).isSome then splitHostURI host uri else ([], host, uri)) =
          (scheme, host, uri) := by
      by_cases hindex : (index (ascii "://") uri).isSome
      · have hpre : ¬ [47, 47] <+: uri := fun hpre => hnames ⟨hpre, hindex⟩
        rw [if_pos (.inr hindex), splitHostURI_origin huri hpre]
        exact ⟨ascii "http", .inr (by decide), rfl⟩
      · rw [if_neg (by simp [hhost, hindex])]
        exact ⟨[], .inl rfl, rfl⟩
    refine iff_of_true (fun u hu => ?_) fun h => absurd h hnames
    obtain ⟨-, name, password, h, hauth, rfl⟩ := (parseInternal_ok hsplit hscheme).1 hu
    have hcut : cutLast 64 host = none := if_neg hat
    simp only [parseAuthority, hcut] at hauth
    rcases hparse : parseHost host with e | h'
    · rw [hparse] at hauth
      cases hauth
    · rw [hparse] at hauth
      cases hauth
      exact ⟨by rw [hparse]; rfl, rfl, rfl, rfl, rfl⟩

/-- A target with two slashes and a `://` behind its path. -/
theorem target_keeps_host_slashes :
    let uri := ascii "/a//b?c=http://d"
    (∀ u, parse (ascii "good.example") uri = .ok u → Undisturbed (ascii "good.example") uri u) ∧
    (parse (ascii "good.example") uri).toOption.isSome := by
  refine ⟨?_, by decide +kernel⟩
  apply (target_keeps_host_iff (by decide) (by decide) (by decide)).2
  exact fun h => absurd (List.isPrefixOf_iff_prefix.2 h.1) (by decide)

/-- The target sends the request to another host, with another path. -/
theorem target_overrides_host :
    (parse (ascii "good.example") (ascii "//u@evil.example/a?b=http://c")).toOption.map
      (fun u => (u.username, u.host, u.getPath)) = some (ascii "u", ascii "evil.example", ascii "/a") ∧
    (parseHost (ascii "good.example")).toOption.map lowercaseBytes = some (ascii "good.example") := by
  decide +kernel

end Mach.Uri
