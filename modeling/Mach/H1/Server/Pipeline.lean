import Mach.H1.Server.Response
/-!
# One response per request

What `ServeConn` writes for a list of exchanges is read back by a client. Each
response is a status line and field lines (`head_eq`), so the client finds the
end of the fields (`readResponse_bytes`); from there it reads the body by the
rules of the protocol, while the server writes it whatever the request's method
was. The two agree exactly for the exchanges that `Fits` describes.
-/

namespace Mach.H1.Server

open Headkit Lib Lib.Numeral Lib.Http1 List Exchange Option

/-! ## What goes over the wire -/

namespace Response

def content (r : Response) : List UInt8 :=
  match r.streamWriter with
  | some s => s.writes.flatten
  | none => r.body

/-- The bytes after the empty line. -/
def bodyBytes (r : Response) : List UInt8 :=
  match r.streamWriter with
  | some s => (s.writes.filter (· ≠ [])).flatMap chunk ++ ascii "0\r\n\r\n"
  | none => if r.code = 204 ∨ r.code = 304 then [] else r.body

def streamFailed (r : Response) : Bool :=
  match r.streamWriter with
  | some s => s.failed
  | none => false

theorem total_chunks (ps : List (List UInt8)) (bw : ByteBuffer) :
    (ps.foldl ChunkedWriter.write bw).total = bw.total ++ (ps.filter (· ≠ [])).flatMap chunk := by
  induction ps generalizing bw with
  | nil => simp
  | cons p ps ih =>
    rw [foldl_cons, ih]
    by_cases hp : p = []
    · simp [hp, ChunkedWriter.write]
    · simp [hp, ChunkedWriter.write, chunk, hdrCRLF]

theorem total_writeBody (r : Response) (bw : ByteBuffer) :
    (r.writeBody bw).1.total = bw.total ++ r.bodyBytes ∧ (r.writeBody bw).2 = r.streamFailed := by
  unfold writeBody bodyBytes streamFailed
  cases r.streamWriter with
  | some s => simp [writeStreamBody, ChunkedWriter.close, total_chunks]
  | none =>
    by_cases hcode : r.code = 204 ∨ r.code = 304
    · have hno : ¬ (r.body ≠ [] ∧ r.code ≠ 204 ∧ r.code ≠ 304) := by tauto
      simp [if_neg hno, if_pos hcode]
    · by_cases hbody : r.body = []
      · simp [hbody]
      · have hyes : r.body ≠ [] ∧ r.code ≠ 204 ∧ r.code ≠ 304 := by tauto
        simp [if_pos hyes, if_neg hcode, ByteBuffer.total_write]

end Response

namespace Exchange

def closes (e : Exchange) : Bool := e.keepAlive == some false || e.answer.streamFailed

def bytes (e : Exchange) : List UInt8 :=
  (if e.request.expectsContinue = some true then continueLine else []) ++
    ((e.answer.head e.cachedDateHeader (e.keepAlive.getD false)).getD [] ++ e.answer.bodyBytes)

end Exchange

/-- The exchanges that take place: up to the first that ends the connection. -/
def served : List Exchange → List Exchange
  | [] => []
  | e :: es => if e.closes then [e] else e :: served es

/-- No lookup of the exchange panics. -/
structure Exchange.Sound (e : Exchange) : Prop where
  expects : e.request.expectsContinue.isSome
  keepAlive : e.keepAlive.isSome
  head : ∀ keepAlive, (e.answer.head e.cachedDateHeader keepAlive).isSome

theorem serveRequest_eq {e : Exchange} (h : e.Sound) (bw : ByteBuffer) :
    ∃ out, serveRequest e bw = some (out, !e.closes) ∧ out.total = bw.total ++ e.bytes := by
  obtain ⟨expects, hexp⟩ := isSome_iff_exists.1 h.expects
  obtain ⟨keep, hkeep⟩ := isSome_iff_exists.1 h.keepAlive
  obtain ⟨hd, hhead⟩ := isSome_iff_exists.1 (h.head keep)
  generalize hstart : (if expects then (bw.write continueLine).flush else bw) = start
  have htotal : start.total = bw.total ++ if expects then continueLine else [] := by
    rw [← hstart]
    cases expects <;> simp
  have hwrite : e.answer.writeTo e.cachedDateHeader keep start = some (e.answer.writeBody (start.write hd)) := by
    rw [Response.writeTo, hhead]
    rfl
  have hbytes : e.bytes = (if expects then continueLine else []) ++ (hd ++ e.answer.bodyBytes) := by
    cases expects <;> simp [bytes, hexp, hkeep, hhead]
  obtain ⟨hbody, hfail⟩ := e.answer.total_writeBody (start.write hd)
  have hend : (e.answer.writeBody (start.write hd)).1.total = bw.total ++ e.bytes := by
    rw [hbody, ByteBuffer.total_write, htotal, hbytes]
    simp
  rw [serveRequest, hexp, bind_some, hkeep, hstart, bind_some, hwrite, map_some, hfail]
  cases hs : e.answer.streamFailed with
  | true =>
    have hcl : e.closes = true := by simp [closes, hs]
    exact ⟨_, by rw [if_pos rfl, hcl]; rfl, hend⟩
  | false =>
    have hcl : e.closes = !keep := by cases keep <;> simp [closes, hs, hkeep]
    refine ⟨_, by rw [if_neg (by simp), hcl, Bool.not_not], ?_⟩
    rw [← hend]
    split <;> simp

variable {es : List Exchange}

theorem serveLoop_eq (h : ∀ e ∈ es, e.Sound) (bw : ByteBuffer) :
    ∃ out, serveLoop es bw = some (out, served es) ∧ out.sent = bw.total ++ (served es).flatMap Exchange.bytes := by
  induction es generalizing bw with
  | nil => exact ⟨_, rfl, by simp [served, ByteBuffer.sent_flush]⟩
  | cons e es ih =>
    obtain ⟨out, hout, htotal⟩ := serveRequest_eq (h e (by simp)) bw
    rw [serveLoop, hout, bind_some, served]
    cases e.closes with
    | true => exact ⟨out.flush, rfl, by simp [ByteBuffer.sent_flush, htotal]⟩
    | false =>
      obtain ⟨fin, hfin, hsent⟩ := ih (fun x hx => h x (by simp [hx])) out
      exact ⟨fin, by simp [hfin], by simp [hsent, htotal]⟩

/-- Coalesced or not, the peer gets the bytes of the exchanges in their order. -/
theorem serveConn_eq (h : ∀ e ∈ es, e.Sound) :
    serveConn es = some ((served es).flatMap Exchange.bytes, served es) := by
  obtain ⟨out, hout, hsent⟩ := serveLoop_eq h {}
  rw [serveConn, hout, map_some, hsent]
  rfl

/-! ## The head of a response -/

def statusText (code : Nat) : List UInt8 :=
  ascii "HTTP/1.1 " ++ numeral 10 code ++ ascii " " ++ ascii (message code)

theorem message_plain (code : Nat) : message code ≠ "" ∧ 13 ∉ ascii (message code) := by
  have hunknown : unknownStatusCode ≠ "" ∧ 13 ∉ ascii unknownStatusCode := by decide +kernel
  have htable : ∀ p ∈ statusMessages, p.2 ≠ "" ∧ 13 ∉ ascii p.2 := by decide +kernel
  unfold message
  split
  · exact hunknown
  · cases hl : statusMessages.lookup code with
    | none => exact hunknown
    | some text =>
      obtain ⟨l1, l2, hl, -⟩ := lookup_eq_some_iff.1 hl
      exact htable (code, text) (by simp [hl])

theorem statusCode_statusText {code : Nat} (hlo : 100 ≤ code) (hhi : code < 600) :
    13 ∉ statusText code ∧ Http1.statusCode (statusText code) = some code := by
  have hall : (numeral 10 code).all isDigit = true := all_numeral (by omega) (fun d hd => isDigit_digit hd) code
  have hvalue : value 10 (numeral 10 code) = code := value_numeral (by omega) (by omega) code
  obtain ⟨a, b, c, hthree⟩ : ∃ a b c, numeral 10 code = [a, b, c] := by
    rw [numeral_eq (by omega), if_neg (by omega), numeral_eq (by omega), if_neg (by omega), numeral_eq (by omega),
      if_pos (by omega)]
    exact ⟨_, _, _, rfl⟩
  have hhttp : ascii "HTTP/1.1 " = [72, 84, 84, 80, 47, 49, 46, 49, 32] := by decide
  rw [hthree] at hall hvalue
  rw [statusText, hthree, hhttp]
  constructor
  · have hdigits : 13 ∉ [a, b, c] := fun h => absurd (all_eq_true.1 hall 13 h) (by decide)
    simp only [mem_append, not_or]
    exact ⟨⟨⟨by decide, hdigits⟩, by decide⟩, (message_plain code).2⟩
  · simp only [all_cons, all_nil, Bool.and_true] at hall
    have hone : isDigit 49 = true := rfl
    simp [Http1.statusCode, ascii, hall, hvalue, hone]

theorem statusLine_eq {code : Nat} (hlo : 100 ≤ code) (hhi : code < 600) :
    statusLine code = statusText code ++ [13, 10] := by
  rw [statusLine, statusLines, if_pos ⟨hlo, hhi, (message_plain code).1⟩]
  rfl

theorem lengthDigits_eq (n : Nat) : Response.lengthDigits n = numeral 10 n := by
  have hshort : ∀ n < 100, Response.lengthDigits n = numeral 10 n := by decide +kernel
  by_cases hn : n < 100
  · exact hshort n hn
  · rw [Response.lengthDigits, if_neg (by omega), if_neg hn]

/-- A field without line breaks whose name, as far as a client reads it, is not a framing field. -/
structure PlainField (f : Field) : Prop where
  name : 13 ∉ f.1 ∧ 10 ∉ f.1
  value : 13 ∉ f.2 ∧ 10 ∉ f.2
  notEncoding : equalFoldASCII (fieldName f.1) (ascii "Transfer-Encoding") = false
  notLength : equalFoldASCII (fieldName f.1) (ascii "Content-Length") = false

/-- A response of a handler: a final status, plain fields, and a storage that lookups work on. -/
structure Response.Plain (r : Response) (fs : List Field) : Prop where
  status : 200 ≤ r.code ∧ r.code < 600
  headers : ∃ v : View, Represents r.headers v ∧ v.Sorted ∧ v.all = fs
  fields : ∀ f ∈ fs, PlainField f
  cookies : ∀ c, some c ∈ r.cookies → 13 ∉ c ∧ 10 ∉ c

def DateLine (b : List UInt8) : Prop := b = [] ∨ ∃ v, 13 ∉ v ∧ 10 ∉ v ∧ b = lines [(ascii "Date", v)]

namespace Response

variable {r : Response} {fs : List Field} {key date name : List UInt8}

def framingFields (r : Response) : List Field :=
  match r.streamWriter with
  | some _ => [(ascii "Transfer-Encoding", ascii "chunked")]
  | none =>
    if r.code = 204 ∨ r.code = 304 then [] else [(ascii "Content-Length", numeral 10 r.body.length)]

def cookieFields (r : Response) : List Field := r.cookies.filterMap fun c => c.map fun v => (ascii "Set-Cookie", v)

theorem eq_colon_of_lower {c : UInt8} (h : lower c = lower 58) : c = 58 := by
  have hcolon : lower 58 = 58 := by decide
  rw [hcolon, lower] at h
  split at h
  · rename_i hletter
    have hnat := congrArg UInt8.toNat h
    simp only [UInt8.le_iff_toNat_le, UInt8.toNat_add, UInt8.reduceToNat] at hnat hletter
    omega
  · exact h

/-- A field of an exact name is not plain if the name is a framing field. -/
theorem not_named {f : Field} (hkey : isToken key = true)
    (hne : equalFoldASCII (fieldName f.1) key = false) : View.named key f = false := by
  by_contra hnamed
  rw [Bool.not_eq_false, View.named_iff] at hnamed
  have hcolon : ∀ c ∈ f.1, (c != 58) = true := by
    intro c hc
    rw [bne_iff_ne]
    rintro rfl
    have hmem : lower 58 ∈ key.map lower := by
      rw [← equalFoldASCII_iff.1 hnamed]
      exact mem_map_of_mem hc
    obtain ⟨d, hd, hlow⟩ := mem_map.1 hmem
    have hdtok : isTokenChar d = true := by
      have := (Bool.and_eq_true_iff.1 hkey).2
      exact all_eq_true.1 this d hd
    rw [eq_colon_of_lower hlow] at hdtok
    exact absurd hdtok (by decide)
  have hself : fieldName f.1 = f.1 := takeWhile_eq_self_iff.2 hcolon
  rw [hself, hnamed] at hne
  cases hne

theorem cookieLines_eq (r : Response) : cookieLines r.cookies = lines r.cookieFields := by
  unfold cookieLines cookieFields
  induction r.cookies with
  | nil => rfl
  | cons c cs ih =>
    rw [flatMap_cons, ih]
    cases c <;> rfl

/-- The lines the server may add on its own. -/
def Added (fs : List Field) : Prop := ∀ f ∈ fs, (f.1 = ascii "Date" ∨ f.1 = ascii "Connection") ∧ 13 ∉ f.2

section Head

variable (h : r.Plain fs)
include h

theorem Plain.get_absent (hkey : isToken key = true)
    (hne : ∀ f ∈ fs, equalFoldASCII (fieldName f.1) key = false) : r.headers.get key = some [] := by
  obtain ⟨v, hr, hs, rfl⟩ := h.headers
  rw [hr.get, View.get_of_absent hs]
  exact fun f hf => not_named hkey (hne f hf)

theorem Plain.get_isSome (name : List UInt8) : ∃ v, r.headers.get name = some v := by
  obtain ⟨v, hr, -, -⟩ := h.headers
  exact ⟨_, hr.get name⟩

theorem Plain.framingHeader : r.framingHeader = some (lines r.framingFields) := by
  have hencoding := h.get_absent (by decide) fun f hf => (h.fields f hf).notEncoding
  have hlength := h.get_absent (by decide) fun f hf => (h.fields f hf).notLength
  unfold Response.framingHeader framingFields
  cases r.streamWriter with
  | some s =>
    simp only [hencoding, map_some]
    rfl
  | none =>
    by_cases hcode : r.code = 204 ∨ r.code = 304
    · have hno : ¬ (200 ≤ r.code ∧ r.code ≠ 204 ∧ r.code ≠ 304) := by omega
      simp only [if_neg hno, if_pos hcode]
      rfl
    · have hyes : 200 ≤ r.code ∧ r.code ≠ 204 ∧ r.code ≠ 304 := ⟨h.status.1, by omega, by omega⟩
      have hname : ascii "Content-Length: " = ascii "Content-Length" ++ [58, 32] := by decide
      simp only [if_pos hyes, if_neg hcode, hlength, hencoding, bind_some, map_some, if_true,
        lengthDigits_eq]
      simp [lines, line, hname, hdrCRLF]

theorem headerLines_eq : headerLines r.headers = some (lines fs) := by
  obtain ⟨v, hr, -, rfl⟩ := h.headers
  rw [headerLines, hr.all, map_some]
  congr 1
  unfold lines line
  congr 1
  funext f
  simp [ascii, hdrCRLF]

theorem Plain.dateHeader (hdate : DateLine date) :
    ∃ ds, r.dateHeader date = some (lines ds) ∧ Added ds := by
  obtain ⟨v, hv⟩ := h.get_isSome (ascii "Date")
  rw [Response.dateHeader, hv, map_some]
  by_cases hempty : v = []
  · rw [if_pos hempty]
    rcases hdate with rfl | ⟨d, hcr, -, rfl⟩
    · exact ⟨[], rfl, nofun⟩
    · exact ⟨[_], rfl, by simp [Added, hcr]⟩
  · rw [if_neg hempty]
    exact ⟨[], rfl, nofun⟩

theorem Plain.connectionHeader (keepAlive : Bool) :
    ∃ cs, r.connectionHeader keepAlive = some (lines cs) ∧ Added cs := by
  obtain ⟨v, hv⟩ := h.get_isSome (ascii "Connection")
  have hfinal : r.code ≠ 101 := by
    have := h.status.1
    omega
  rw [Response.connectionHeader, if_neg hfinal]
  cases keepAlive with
  | false => exact ⟨[(ascii "Connection", ascii "close")], rfl, by simp [Added]; decide⟩
  | true =>
    rw [if_neg (by simp), hv, map_some]
    by_cases hempty : v = []
    · rw [if_pos hempty]
      exact ⟨[(ascii "Connection", ascii "keep-alive")], rfl, by simp [Added]; decide⟩
    · rw [if_neg hempty]
      exact ⟨[], rfl, nofun⟩

/-- The head is a status line and field lines: the added ones, the framing, the handler's and the cookies. -/
theorem Plain.head_eq (hdate : DateLine date) (keepAlive : Bool) :
    ∃ added, Added added ∧ r.head date keepAlive = some (statusText r.code ++ 13 :: 10 ::
      (lines (added ++ r.framingFields ++ (fs ++ r.cookieFields)) ++ [13, 10])) := by
  obtain ⟨ds, hds, hdsAdded⟩ := h.dateHeader hdate
  obtain ⟨cs, hcs, hcsAdded⟩ := h.connectionHeader keepAlive
  have hlo : 100 ≤ r.code := by
    have := h.status.1
    omega
  refine ⟨ds ++ cs, ?_, ?_⟩
  · intro f hf
    rcases mem_append.1 hf with hf | hf
    · exact hdsAdded f hf
    · exact hcsAdded f hf
  · rw [head, hds, hcs, h.framingHeader, headerLines_eq h, cookieLines_eq, statusLine_eq hlo h.status.2]
    simp [lines, hdrCRLF]

end Head

/-! ## Reading a response -/

/-- The fields that are read whatever the handler does, and do not say anything about the framing. -/
structure Neutral (f : Field) : Prop where
  token : isToken (fieldName f.1) = true
  line : 13 ∉ f.1 ∧ 13 ∉ f.2
  notEncoding : (fieldName f.1).map lowerCase ≠ transferEncoding
  notLength : (fieldName f.1).map lowerCase ≠ contentLength

theorem neutral_names : ∀ name ∈ [ascii "Date", ascii "Connection", ascii "Set-Cookie"],
    isToken (fieldName name) = true ∧ 13 ∉ name ∧ (fieldName name).map lowerCase ≠ transferEncoding ∧
      (fieldName name).map lowerCase ≠ contentLength := by decide

theorem neutral_of_name {v : List UInt8} (hv : 13 ∉ v)
    (h : name ∈ [ascii "Date", ascii "Connection", ascii "Set-Cookie"]) : Neutral (name, v) := by
  obtain ⟨htok, hname, hte, hcl⟩ := neutral_names name h
  exact ⟨htok, ⟨hname, hv⟩, hte, hcl⟩

theorem Added.neutral {added : List Field} (h : Added added) : ∀ f ∈ added, Neutral f := by
  rintro ⟨name, value⟩ hf
  obtain ⟨rfl | rfl, hv⟩ := h _ hf <;> exact neutral_of_name hv (by simp)

theorem Plain.neutral_cookies (h : r.Plain fs) : ∀ f ∈ r.cookieFields, Neutral f := by
  rintro f hf
  simp only [cookieFields, mem_filterMap, map_eq_some_iff] at hf
  obtain ⟨_, hmem, c, rfl, rfl⟩ := hf
  exact neutral_of_name (h.cookies c hmem).1 (by simp)

theorem lowerCase_ne {key' : List UInt8} (hkey : key.map lower = key')
    (hne : equalFoldASCII name key = false) : name.map lowerCase ≠ key' := by
  rw [equalFoldASCII, hkey] at hne
  exact beq_eq_false_iff_ne.1 hne

/-- Neutral fields are read, and none of them has a framing field's name. -/
theorem readLines_neutral {gs : List Field} (h : ∀ f ∈ gs, Neutral f) :
    ∃ xs, readLines gs = some xs ∧ fieldValues transferEncoding xs = [] ∧ fieldValues contentLength xs = [] := by
  obtain ⟨xs, hxs⟩ := isSome_iff_exists.1 ((isSome_readLines gs).2 fun f hf => (h f hf).token)
  exact ⟨xs, hxs, fieldValues_eq_nil (fun f hf => (h f hf).notEncoding) hxs,
    fieldValues_eq_nil (fun f hf => (h f hf).notLength) hxs⟩

theorem all_isDigit_numeral (n : Nat) : ∀ c ∈ numeral 10 n, isDigit c = true :=
  all_eq_true.1 (all_numeral (by omega) (fun _ hd => isDigit_digit hd) n)

theorem readLines_framingFields (r : Response) :
    readLines r.framingFields = some r.framingFields ∧ ∀ f ∈ r.framingFields, 13 ∉ f.1 ∧ 13 ∉ f.2 := by
  have hdigits : ∀ c ∈ numeral 10 r.body.length, isSpace c = false ∧ c ≠ 13 := by
    intro c hc
    have hd := all_isDigit_numeral _ c hc
    refine ⟨?_, ?_⟩
    · by_contra hspace
      rw [Bool.not_eq_false, isSpace, Bool.or_eq_true, beq_iff_eq, beq_iff_eq] at hspace
      rcases hspace with rfl | rfl <;> exact absurd hd (by decide)
    · rintro rfl
      exact absurd hd (by decide)
  unfold framingFields
  cases r.streamWriter with
  | some s =>
    dsimp only
    exact ⟨by decide, by simp; decide⟩
  | none =>
    by_cases hcode : r.code = 204 ∨ r.code = 304
    · simp [hcode, readLines]
    · have htok : isToken (ascii "Content-Length") = true := by decide
      have hname : 13 ∉ ascii "Content-Length" := by decide
      simp only [if_neg hcode, readLines, mapM_cons, mapM_nil, fieldLine_of_token htok,
        trimSpace_cons fun c hc => (hdigits c hc).1]
      refine ⟨rfl, ?_⟩
      rintro f hf
      obtain rfl := mem_singleton.1 hf
      exact ⟨hname, fun h13 => (hdigits 13 h13).2 rfl⟩

/-- The client finds the status and the framing fields in the head, or refuses a field name. -/
theorem Plain.readHead_eq (h : r.Plain fs) (hdate : DateLine date) (keepAlive : Bool) :
    ∃ hd, r.head date keepAlive = some hd ∧ ∀ rest,
      ((∀ f ∈ fs, isToken (fieldName f.1) = true) → ∃ gs, readHead (hd ++ rest) = some ⟨r.code, gs, rest⟩ ∧
        fieldValues transferEncoding gs = fieldValues transferEncoding r.framingFields ∧
        fieldValues contentLength gs = fieldValues contentLength r.framingFields) ∧
      (¬ (∀ f ∈ fs, isToken (fieldName f.1) = true) → readHead (hd ++ rest) = none) := by
  obtain ⟨added, hadded, hhead⟩ := h.head_eq hdate keepAlive
  refine ⟨_, hhead, fun rest => ?_⟩
  obtain ⟨hcr, hstatus⟩ := statusCode_statusText (le_trans (by decide) h.status.1) h.status.2
  have hneutral := hadded.neutral
  have hcookies := h.neutral_cookies
  obtain ⟨hframing, hframingLines⟩ := readLines_framingFields r
  have hlines : ∀ f ∈ added ++ r.framingFields ++ (fs ++ r.cookieFields), 13 ∉ f.1 ∧ 13 ∉ f.2 := by
    intro f hf
    simp only [mem_append] at hf
    rcases hf with (hf | hf) | (hf | hf)
    · exact (hneutral f hf).line
    · exact hframingLines f hf
    · exact ⟨(h.fields f hf).name.1, (h.fields f hf).value.1⟩
    · exact (hcookies f hf).line
  have hread := readHead_lines hcr hstatus hlines rest
  have hassoc : ∀ a b : List UInt8, a ++ 13 :: 10 :: (b ++ [13, 10]) ++ rest = a ++ 13 :: 10 :: (b ++ 13 :: 10 :: rest) := by
    simp
  rw [hassoc, hread]
  obtain ⟨as, has, hasTe, hasCl⟩ := readLines_neutral hneutral
  refine ⟨fun htok => ?_, fun htok => ?_⟩
  · have hothers : ∀ f ∈ fs ++ r.cookieFields, Neutral f := by
      intro f hf
      rcases mem_append.1 hf with hf | hf
      · have hp := h.fields f hf
        exact ⟨htok f hf, ⟨hp.name.1, hp.value.1⟩, lowerCase_ne (by decide) hp.notEncoding,
          lowerCase_ne (by decide) hp.notLength⟩
      · exact hcookies f hf
    -- only the framing fields carry the two names
    obtain ⟨xs, hxs, hxsTe, hxsCl⟩ := readLines_neutral hothers
    refine ⟨as ++ r.framingFields ++ xs, ?_, ?_, ?_⟩
    · rw [readLines_append, readLines_append, has, hframing, hxs]
      rfl
    · rw [fieldValues_append, fieldValues_append, hasTe, hxsTe, nil_append, append_nil]
    · rw [fieldValues_append, fieldValues_append, hasCl, hxsCl, nil_append, append_nil]
  · rw [map_eq_none_iff, ← not_isSome_iff_eq_none, isSome_readLines]
    exact fun hall => htok fun f hf => hall f (by simp [hf])

/-- Where a body is allowed, the client reads the framing that the server used. -/
theorem Plain.framing_eq {method : List UInt8} (htunnel : tunnels method r.code = false)
    (hbodyless : bodyless method r.code = false) {gs : List Field}
    (hte : fieldValues transferEncoding gs = fieldValues transferEncoding r.framingFields)
    (hcl : fieldValues contentLength gs = fieldValues contentLength r.framingFields) :
    framing method r.code gs =
      some (match r.streamWriter with | some _ => .chunked | none => .length r.body.length) := by
  have hcode : ¬ (r.code = 204 ∨ r.code = 304) := by
    simp only [bodyless, Bool.or_eq_false_iff, beq_eq_false_iff_ne] at hbodyless
    omega
  rw [framing, htunnel, hbodyless, hte, hcl]
  unfold framingFields
  cases r.streamWriter with
  | some s =>
    dsimp only
    decide
  | none =>
    have hnone : fieldValues transferEncoding [(ascii "Content-Length", numeral 10 r.body.length)] = [] := by
      have hne : ((ascii "Content-Length").map lowerCase == transferEncoding) = false := by decide
      simp [fieldValues, hne]
    have hsome : fieldValues contentLength [(ascii "Content-Length", numeral 10 r.body.length)] =
        [numeral 10 r.body.length] := by
      have heq : ((ascii "Content-Length").map lowerCase == contentLength) = true := by decide
      simp [fieldValues, heq]
    simp [if_neg hcode, hnone, hsome, getLast?_nil, decimal_numeral]

theorem readBody_bodyBytes (r : Response) (hcode : ¬ (r.code = 204 ∨ r.code = 304)) (rest : List UInt8) :
    readBody (r.bodyBytes ++ rest) (match r.streamWriter with | some _ => .chunked | none => .length r.body.length) =
      some (r.content, rest) := by
  unfold bodyBytes content
  cases r.streamWriter with
  | some s =>
    have hlast : ascii "0\r\n\r\n" = [48, 13, 10, 13, 10] := by decide
    have hread := readBody_chunked (s.writes.filter (· ≠ [])) (by simp) rest
    have hflat : (s.writes.filter (· ≠ [])).flatten = s.writes.flatten := by
      have := flatten_filter_ne_nil (L := s.writes)
      simpa using this
    rw [hflat] at hread
    simpa [hlast] using hread
  | none =>
    simp only [if_neg hcode]
    exact readBody_length r.body rest

end Response

/-! ## Exchanges -/

/-- An accepted request whose fields can be looked up, and a handler that sets a final status, plain fields and cookies,
and leaves the connection to the server. The fields are whatever calls of `Set`, `Add` and `Del` make of an empty storage. -/
structure Handled (e : Exchange) : Prop where
  lookups : ∀ name, ∃ v, e.request.headers.get name = some v
  status : 200 ≤ e.response.statusCode ∧ e.response.statusCode ≤ 599
  headers : ∃ ops : List Op, ops.foldlM Op.apply {} = some e.response.headers
  fields : ∀ fs, e.response.headers.all = some fs → ∀ f ∈ fs, PlainField f
  cookies : ∀ c, some c ∈ e.response.cookies → 13 ∉ c ∧ 10 ∉ c
  date : DateLine e.cachedDateHeader

namespace Exchange

variable {e : Exchange}

def fields (e : Exchange) : List Field := e.response.headers.all.getD []

/-- Whether the client takes the response to end with its head. -/
def silent (e : Exchange) : Bool :=
  tunnels e.request.method e.answer.code || bodyless e.request.method e.answer.code

def expected (e : Exchange) : Http1.Response := ⟨e.answer.code, if e.silent then [] else e.answer.content⟩

/-- Field names are tokens as far as a client reads them, and no body follows a head that ends the response. -/
structure Fits (e : Exchange) : Prop where
  names : ∀ f ∈ e.fields, isToken (fieldName f.1) = true
  body : e.silent = true →
    e.answer.streamWriter = none ∧ (e.answer.body = [] ∨ e.answer.code = 204 ∨ e.answer.code = 304)

end Exchange

theorem represents_of_ops {ops : List Op} {h h' : Headers} {v : View} (hr : Represents h v) (hs : v.Sorted)
    (hrun : ops.foldlM Op.apply h = some h') : ∃ v' : View, Represents h' v' ∧ v'.Sorted := by
  induction ops generalizing h v with
  | nil =>
    obtain rfl : h = h' := by simpa using hrun
    exact ⟨v, hr, hs⟩
  | cons op ops ih =>
    obtain ⟨h1, v1, happ, hr1, hs1, -⟩ := hr.apply hs op
    rw [foldlM_cons, happ] at hrun
    exact ih hr1 hs1 hrun

namespace Handled

variable {e : Exchange}

theorem plain (h : Handled e) : e.answer.Plain e.fields := by
  obtain ⟨ops, hops⟩ := h.headers
  obtain ⟨v, hr, hs⟩ := represents_of_ops (entered_nil []).repr (sorted_storedView []) hops
  have hfields : e.fields = v.all := by rw [Exchange.fields, hr.all, getD_some]
  have hheaders : e.answer.headers = e.response.headers := by
    unfold answer
    split <;> rfl
  have hcookies : e.answer.cookies = e.response.cookies := by
    unfold answer
    split <;> rfl
  have hcode : e.answer.code = if e.failed then 500 else e.response.statusCode := by
    have hpos : e.response.statusCode ≠ 0 := by
      have := h.status.1
      omega
    cases hf : e.failed <;> simp [answer, Response.code, hf, hpos]
  refine ⟨?_, ⟨v, by rw [hheaders]; exact hr, hs, hfields.symm⟩, ?_, by rw [hcookies]; exact h.cookies⟩
  · rw [hcode]
    have := h.status
    split <;> omega
  · rw [hfields]
    exact h.fields v.all hr.all

theorem sound (h : Handled e) : e.Sound := by
  have hhas : ∀ key, ∃ b, e.request.has key = some b := by
    intro key
    obtain ⟨v, hv⟩ := h.lookups key
    exact ⟨_, by rw [Request.has, hv, map_some]⟩
  obtain ⟨te, hte⟩ := hhas (ascii "Transfer-Encoding")
  obtain ⟨cl, hcl⟩ := hhas (ascii "Content-Length")
  obtain ⟨ex, hex⟩ := hhas (ascii "Expect")
  obtain ⟨conn, hconn⟩ := h.lookups (ascii "Connection")
  have hslot : ∃ v, e.request.headers.getVal (e.request.headers.packed idxConnection) = some v := by
    have hidx : slotOf (ascii "Connection") = some idxConnection := by decide
    rw [Headers.get, Headers.getSlot, hidx, bind_eq_some_iff] at hconn
    obtain ⟨v, hv, -⟩ := hconn
    exact ⟨v, hv⟩
  obtain ⟨slot, hslot⟩ := hslot
  obtain ⟨answered, hanswered⟩ := h.plain.get_isSome (ascii "Connection")
  refine ⟨?_, ?_, fun keepAlive => ?_⟩
  · rw [Request.expectsContinue, hte, bind_some, hcl, bind_some, hex]
    split <;> rfl
  · have hpersistent : e.request.isKeepAlive.isSome := by
      rw [Request.isKeepAlive, hslot, bind_some, hconn, isSome_map]
      split <;> rfl
    obtain ⟨persistent, hp⟩ := isSome_iff_exists.1 hpersistent
    rw [keepAlive, hp, hte, hcl, hanswered]
    rfl
  · obtain ⟨hd, hhd, -⟩ := h.plain.readHead_eq h.date keepAlive
    rw [hhd]
    rfl

theorem code_ge (h : Handled e) : 200 ≤ e.answer.code := h.plain.status.1

theorem readResponse_continue (method : List UInt8) (fuel : Nat) (rest : List UInt8) :
    readResponse method (fuel + 1) (continueLine ++ rest) = readResponse method fuel rest := by
  have hline : continueLine = ascii "HTTP/1.1 100 Continue" ++ 13 :: 10 :: (lines [] ++ [13, 10]) := by decide
  have hhead : readHead (continueLine ++ rest) = some ⟨100, [], rest⟩ := by
    have hread := @readHead_lines (ascii "HTTP/1.1 100 Continue") 100 [] (by decide) (by decide)
      (by simp) rest
    rw [hline]
    simpa [lines, readLines] using hread
  rw [readResponse, hhead]
  rfl

/-- What the client makes of the bytes of one exchange and whatever follows them. -/
theorem readResponse_bytes (h : Handled e) {fuel : Nat} (hfuel : 2 ≤ fuel) (rest : List UInt8) :
    ((∀ f ∈ e.fields, isToken (fieldName f.1) = true) →
      readResponse e.request.method fuel (e.bytes ++ rest) =
        some (e.expected, (if e.silent then e.answer.bodyBytes else []) ++ rest)) ∧
    (¬ (∀ f ∈ e.fields, isToken (fieldName f.1) = true) →
      readResponse e.request.method fuel (e.bytes ++ rest) = none) := by
  obtain ⟨hd, hhd, hread⟩ := h.plain.readHead_eq h.date (e.keepAlive.getD false)
  obtain ⟨hgood, hbad⟩ := hread (e.answer.bodyBytes ++ rest)
  -- an interim response in front costs one round
  obtain ⟨n, hn⟩ : ∃ n, readResponse e.request.method fuel (e.bytes ++ rest) =
      readResponse e.request.method (n + 1) (hd ++ (e.answer.bodyBytes ++ rest)) := by
    obtain ⟨m, rfl⟩ : ∃ m, fuel = m + 2 := ⟨fuel - 2, by omega⟩
    rw [bytes, hhd, getD_some]
    split
    · refine ⟨m, ?_⟩
      rw [append_assoc, readResponse_continue, append_assoc]
    · exact ⟨m + 1, by simp⟩
  have hfinal : interim e.answer.code = false := by
    have := h.code_ge
    simp [interim]
    omega
  rw [hn, readResponse]
  refine ⟨fun htok => ?_, fun htok => by rw [hbad htok]; rfl⟩
  obtain ⟨gs, hhead, hte, hcl⟩ := hgood htok
  rw [hhead, bind_some]
  simp only [hfinal, Bool.false_eq_true, if_false]
  unfold expected
  cases ht : tunnels e.request.method e.answer.code with
  | true =>
    have hs : e.silent = true := by simp [silent, ht]
    simp [framing, ht, hs, readBody]
  | false =>
    cases hb : bodyless e.request.method e.answer.code with
    | true =>
      have hs : e.silent = true := by simp [silent, hb]
      simp [framing, ht, hb, hs, readBody]
    | false =>
      have hs : e.silent = false := by simp [silent, ht, hb]
      have hcode : ¬ (e.answer.code = 204 ∨ e.answer.code = 304) := by
        simp only [bodyless, Bool.or_eq_false_iff, beq_eq_false_iff_ne] at hb
        omega
      rw [Response.Plain.framing_eq ht hb hte hcl, bind_some, Response.readBody_bodyBytes _ hcode]
      simp [hs]

/-- A silent response leaves bytes over if and only if it has a body. -/
theorem bodyBytes_eq_nil (r : Response) :
    r.bodyBytes = [] ↔ r.streamWriter = none ∧ (r.body = [] ∨ r.code = 204 ∨ r.code = 304) := by
  unfold Response.bodyBytes
  cases r.streamWriter with
  | some s =>
    have hlast : ascii "0\r\n\r\n" ≠ [] := by decide
    simp [hlast]
  | none =>
    by_cases hcode : r.code = 204 ∨ r.code = 304
    · simp [hcode]
    · simp [hcode]

end Handled

/-! ## Connections -/

/-- The client reads one response per exchange, the expected one, and nothing is left. -/
def Reads (es : List Exchange) : Prop :=
  readResponses (es.map (·.request.method)) (es.flatMap Exchange.bytes) = some (es.map Exchange.expected, [])

/-- Every exchange fits, and none follows a tunnel. -/
def AllFit : List Exchange → Prop
  | [] => True
  | e :: es => e.Fits ∧ (tunnels e.request.method e.answer.code = true → es = []) ∧ AllFit es

section Reads

variable {e : Exchange}

theorem reads_nil : Reads [] := rfl

theorem length_bytes (h : Handled e) : 1 ≤ e.bytes.length := by
  obtain ⟨added, -, hhead⟩ := h.plain.head_eq h.date (e.keepAlive.getD false)
  rw [bytes, hhead]
  simp only [getD_some, length_append, length_cons]
  omega

theorem fits_of_reads (h : Handled e) (hr : Reads [e]) : e.Fits := by
  have hlen := length_bytes h
  obtain ⟨hgood, hbad⟩ := h.readResponse_bytes (show 2 ≤ (e.bytes ++ []).length + 1 by simp; omega) []
  have hflat : [e].flatMap bytes = e.bytes ++ [] := by simp
  rw [Reads, hflat, map_singleton, readResponses] at hr
  have htok : ∀ f ∈ e.fields, isToken (fieldName f.1) = true := by
    by_contra hno
    rw [hbad hno] at hr
    cases hr
  refine ⟨htok, fun hs => ?_⟩
  rw [hgood htok, bind_some, if_neg (by simp), hs] at hr
  rw [← Handled.bodyBytes_eq_nil]
  simpa [readResponses] using hr

theorem reads_cons (h : Handled e) (hfit : e.Fits) :
    Reads (e :: es) ↔ (tunnels e.request.method e.answer.code = true → es = []) ∧ Reads es := by
  have hlen := length_bytes h
  have hread := (h.readResponse_bytes (show 2 ≤ (e.bytes ++ es.flatMap bytes).length + 1 by simp; omega)
    (es.flatMap bytes)).1 hfit.names
  have hrest : (if e.silent = true then e.answer.bodyBytes else []) = [] := by
    split
    · rename_i hs
      exact (Handled.bodyBytes_eq_nil _).2 (hfit.body hs)
    · rfl
  rw [hrest, nil_append] at hread
  rw [Reads, flatMap_cons, map_cons, readResponses, hread, bind_some]
  change (if tunnels e.request.method e.answer.code = true ∧ es.map (·.request.method) ≠ [] then none else _) = _ ↔ _
  by_cases ht : tunnels e.request.method e.answer.code = true ∧ es ≠ []
  · have hif : tunnels e.request.method e.answer.code = true ∧ es.map (·.request.method) ≠ [] := by simpa using ht
    rw [if_pos hif]
    exact ⟨nofun, fun hr => absurd (hr.1 ht.1) ht.2⟩
  · have hif : ¬ (tunnels e.request.method e.answer.code = true ∧ es.map (·.request.method) ≠ []) := by simpa using ht
    have htun : tunnels e.request.method e.answer.code = true → es = [] := fun htrue => by
      by_contra hne
      exact ht ⟨htrue, hne⟩
    rw [if_neg hif, Reads, and_iff_right htun]
    cases readResponses (es.map (·.request.method)) (es.flatMap bytes) with
    | none => simp
    | some q => simp [Prod.ext_iff]

theorem forall_prefix_cons {α : Type} {a : α} {l : List α} {P : List α → Prop} :
    (∀ ds, ds <+: a :: l → P ds) ↔ P [] ∧ ∀ ds, ds <+: l → P (a :: ds) := by
  constructor
  · exact fun h => ⟨h [] nil_prefix, fun ds hds => h (a :: ds) (by simpa using hds)⟩
  · rintro ⟨hnil, hcons⟩ ds hds
    rcases prefix_cons_iff.1 hds with rfl | ⟨ds', rfl, hds'⟩
    · exact hnil
    · exact hcons ds' hds'

/-- Every initial part of a list of exchanges is read if and only if all of them fit. -/
theorem reads_prefixes (h : ∀ e ∈ es, Handled e) : (∀ ds, ds <+: es → Reads ds) ↔ AllFit es := by
  induction es with
  | nil => simp [AllFit, reads_nil]
  | cons e es ih =>
    have he := h e (by simp)
    rw [forall_prefix_cons, AllFit, ← ih fun x hx => h x (by simp [hx])]
    constructor
    · rintro ⟨-, hall⟩
      have hfit := fits_of_reads he (hall [] nil_prefix)
      have hcons := fun ds hds => (reads_cons he hfit).1 (hall ds hds)
      exact ⟨hfit, (hcons es prefix_rfl).1, fun ds hds => (hcons ds hds).2⟩
    · rintro ⟨hfit, htun, hrest⟩
      refine ⟨reads_nil, fun ds hds => (reads_cons he hfit).2 ⟨fun ht => ?_, hrest ds hds⟩⟩
      rw [htun ht] at hds
      exact prefix_nil.1 hds

end Reads

/-- The initial parts of a connection take place as the initial parts of its exchanges. -/
theorem served_prefixes (es : List Exchange) (Q : List Exchange → Prop) :
    (∀ es', es' <+: es → Q (served es')) ↔ ∀ ds, ds <+: served es → Q ds := by
  induction es generalizing Q with
  | nil => simp [served]
  | cons e es ih =>
    by_cases hcl : e.closes = true
    · simp only [served, if_pos hcl, forall_prefix_cons, prefix_nil, forall_eq]
      exact and_congr_right fun _ => ⟨fun h => h [] nil_prefix, fun h _ _ => h⟩
    · simp only [served, if_neg hcl, forall_prefix_cons]
      exact and_congr_right fun _ => ih fun ds => Q (e :: ds)

theorem served_isPrefix (es : List Exchange) : served es <+: es := by
  induction es with
  | nil => exact prefix_rfl
  | cons e es ih =>
    rw [served]
    split
    · simp
    · exact (prefix_cons_inj e).2 ih

/-- The bytes on the connection are one response for each request that was answered. -/
def Answered (es : List Exchange) : Prop :=
  ∃ sent done, serveConn es = some (sent, done) ∧
    readResponses (done.map (·.request.method)) sent = some (done.map Exchange.expected, [])

theorem answered_iff (h : ∀ e ∈ es, Handled e) : Answered es ↔ Reads (served es) := by
  have hserve := serveConn_eq fun e he => (h e he).sound
  constructor
  · rintro ⟨sent, done, hconn, hread⟩
    obtain ⟨rfl, rfl⟩ : (served es).flatMap bytes = sent ∧ served es = done := by
      simpa [hserve] using hconn
    exact hread
  · exact fun hread => ⟨_, _, hserve, hread⟩

/-- After every exchange of a connection the client has read exactly one response per request, if and only if no
response that ends with its head is given a body, field names are tokens, and a tunnel is the last answer. -/
theorem responses_read_iff (es : List Exchange) (h : ∀ e ∈ es, Handled e) :
    (∀ es', es' <+: es → Answered es') ↔ AllFit (served es) := by
  rw [← reads_prefixes fun e he => h e ((served_isPrefix es).subset he), ← served_prefixes]
  have hiff : ∀ es', es' <+: es → (Answered es' ↔ Reads (served es')) := fun es' hes' =>
    answered_iff fun e he => h e (hes'.subset he)
  exact ⟨fun hall es' hes' => (hiff es' hes').1 (hall es' hes'), fun hall es' hes' => (hiff es' hes').2 (hall es' hes')⟩

/-- A request without fields and a response without fields of the handler. -/
theorem handled_bare {e : Exchange} (hreq : e.request.headers = {}) (hres : e.response.headers = {})
    (hstatus : 200 ≤ e.response.statusCode ∧ e.response.statusCode ≤ 599) (hcookies : e.response.cookies = [])
    (hdate : e.cachedDateHeader = []) : Handled e := by
  refine ⟨fun name => ?_, hstatus, ⟨[], ?_⟩, fun fs hfs => ?_, ?_, .inl hdate⟩
  · rw [hreq]
    exact ⟨_, (entered_nil []).repr.get name⟩
  · rw [hres]
    rfl
  · obtain rfl : [] = fs := by
      rw [hres] at hfs
      exact Option.some.inj hfs
    exact nofun
  · rw [hcookies]
    exact nofun

/-- Two pipelined requests whose answers go out in one piece, the second without a body. -/
def pipelined : List Exchange :=
  [{ request := { method := ascii "GET" }, response := { body := ascii "hi" }, morePipelined := true },
   { request := { method := ascii "HEAD" }, response := { statusCode := 404 } }]

theorem responses_read_pipelined : Answered pipelined := by
  refine (responses_read_iff pipelined ?_).2 ?_ pipelined (prefix_refl _)
  · intro e he
    simp only [pipelined, mem_cons, not_mem_nil, or_false] at he
    rcases he with rfl | rfl
    · exact handled_bare rfl rfl (by decide) rfl rfl
    · exact handled_bare rfl rfl (by decide) rfl rfl
  · have hserved : served pipelined = pipelined := by
      have hopen : (pipelined.map closes) = [false, false] := by decide +kernel
      simp only [pipelined, map_cons, map_nil, List.cons.injEq, and_true] at hopen
      simp only [pipelined, served, hopen]
      simp
    rw [hserved]
    refine ⟨⟨nofun, fun hs => ?_⟩, fun ht => ?_, ⟨nofun, fun _ => ⟨rfl, .inl rfl⟩⟩, fun _ => rfl, trivial⟩
    · exact absurd hs (by decide +kernel)
    · exact absurd ht (by decide +kernel)

/-- A HEAD request whose handler sets a body, as for GET. -/
def headBody : Exchange := { request := { method := ascii "HEAD" }, response := { body := ascii "hi" } }

/-- A stream writer under a status without a body. -/
def noContentStream : Exchange :=
  { request := { method := ascii "GET" }, response := { statusCode := 204, streamWriter := some { writes := [] } } }

theorem not_answered {e : Exchange} (h : Handled e) (hno : ¬ e.Fits) : ¬ Answered [e] := by
  rw [answered_iff (by simpa using h)]
  have hone : served [e] = [e] := by
    simp only [served]
    split <;> rfl
  rw [hone]
  exact fun hr => hno (fits_of_reads h hr)

theorem responses_left_over :
    Handled headBody ∧ Handled noContentStream ∧ ¬ Answered [headBody] ∧ ¬ Answered [noContentStream] ∧
      (serveConn [headBody]).map (·.1) =
        some (ascii "HTTP/1.1 200 OK\r\nConnection: keep-alive\r\nContent-Length: 2\r\n\r\nhi") ∧
      (serveConn [noContentStream]).map (·.1) = some (ascii
        "HTTP/1.1 204 No Content\r\nConnection: keep-alive\r\nTransfer-Encoding: chunked\r\n\r\n0\r\n\r\n") := by
  have hhead : Handled headBody := handled_bare rfl rfl (by decide) rfl rfl
  have hstream : Handled noContentStream := handled_bare rfl rfl (by decide) rfl rfl
  refine ⟨hhead, hstream, not_answered hhead fun hfit => ?_, not_answered hstream fun hfit => ?_, ?_, ?_⟩
  · rcases (hfit.body (by decide +kernel)).2 with hb | hc | hc
    · exact absurd hb (by decide +kernel)
    · exact absurd hc (by decide +kernel)
    · exact absurd hc (by decide +kernel)
  · exact absurd (hfit.body (by decide +kernel)).1 (by simp [noContentStream, answer])
  · decide +kernel
  · decide +kernel

end Mach.H1.Server
