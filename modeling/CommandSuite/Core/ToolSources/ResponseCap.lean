import CommandSuite.Core.ToolSources.PinnedOrigin
import CommandSuite.Core.ToolSources.ToolResponses
import CommandSuite.Library.Utf16

/-! # How long a tool result is

The body of a response is cut at a number of bytes. What is relayed of it may still be longer, and not every cut is marked.
-/

namespace CommandSuite

open Library Utf16 Text

/-- With `TextDecoder` and `TextEncoder`. -/
def ResponseHost.web (host : ResponseHost) : ResponseHost := { host with decode := Utf16.decode, encode := Utf16.encode }

namespace CustomExecutor

/-! ## The body -/

def delivered : List BodyRead → List Nat
  | [] => []
  | .noValue :: reads => delivered reads
  | .failed :: _ => []
  | .chunk value :: reads => value ++ delivered reads

def fails : List BodyRead → Bool
  | [] => false
  | .failed :: _ => true
  | .noValue :: reads | .chunk _ :: reads => fails reads

theorem readBodyCapped_eq (cap : Nat) {bytes : List Nat} (h : bytes.length ≤ cap) (reads : List BodyRead) :
    readBodyCapped cap bytes reads =
      ((bytes ++ delivered reads).take cap, cap < (bytes ++ delivered reads).length || fails reads) := by
  induction reads generalizing bytes with
  | nil =>
    rw [readBodyCapped, delivered, List.append_nil, List.take_of_length_le h, decide_eq_false (Nat.not_lt.mpr h)]
    rfl
  | cons read reads ih =>
    cases read with
    | noValue => exact ih h
    | failed =>
      rw [readBodyCapped, delivered, List.append_nil, List.take_of_length_le h, fails, Bool.or_true]
    | chunk value =>
      rw [readBodyCapped, delivered, fails, ← List.append_assoc]
      split
      · rename_i hOver
        rw [← List.length_append] at hOver
        have hLonger : cap < (bytes ++ value ++ delivered reads).length := by
          rw [List.length_append]
          omega
        rw [decide_eq_true hLonger, Bool.true_or, List.take_append_of_le_length (Nat.le_of_lt hOver), List.take_append,
          List.take_of_length_le h]
      · rename_i hFits
        exact ih (by rw [List.length_append]; omega)

def isBodyCut (res : HttpResponse ResponseRest) : Bool :=
  TOOL_RESULT_MAX_BYTES < (delivered (res.rest.body.getD [])).length || fails (res.rest.body.getD [])

def keptBytes (res : HttpResponse ResponseRest) : List Nat := (delivered (res.rest.body.getD [])).take TOOL_RESULT_MAX_BYTES

theorem readBodyCapped_body (res : HttpResponse ResponseRest) :
    readBodyCapped TOOL_RESULT_MAX_BYTES [] (res.rest.body.getD []) = (keptBytes res, isBodyCut res) :=
  readBodyCapped_eq TOOL_RESULT_MAX_BYTES (Nat.zero_le _) _

/-! ## The parts of a result -/

variable (host : ResponseHost)

def isJsonBody (res : HttpResponse ResponseRest) : Bool :=
  mimeOf host res.rest.contentType = utf16 "application/json" || endsWith (mimeOf host res.rest.contentType) (utf16 "+json")

def isTextLike (res : HttpResponse ResponseRest) : Bool :=
  isJsonBody host res || (utf16 "text/").isPrefixOf (mimeOf host res.rest.contentType) || mimeOf host res.rest.contentType = []

structure ResultParts where
  statusLine : JsString
  whole : JsString
  relayed : JsString
  marked : Bool

def ResultParts.text (parts : ResultParts) : JsString :=
  parts.statusLine ++ parts.relayed ++ if parts.marked then TRUNCATION_MARKER TOOL_RESULT_MAX_BYTES else []

def resultParts (resultPath : Option JsString) (res : HttpResponse ResponseRest) : ResultParts :=
  let rawText := host.decode (keptBytes res)
  if !isOk res.status then
    let detail := if isTextLike host res then rawText else []
    ⟨utf16 s!"upstream returned HTTP {res.status} " ++ res.rest.statusText ++ if detail ≠ [] then [10] else [],
      detail, detail, isBodyCut res⟩
  else if !isTextLike host res then
    ⟨utf16 "[binary response: " ++ mimeOf host res.rest.contentType ++
      utf16 s!", {rawText.length} bytes — not relayed]", [], [], false⟩
  else if res.status = 204 || rawText = [] then ⟨utf16 s!"[no content — HTTP {res.status}]", [], [], false⟩
  else
    let text := resultText host resultPath (isJsonBody host res) (isBodyCut res) rawText
    let tooLong := TOOL_RESULT_MAX_BYTES < (host.encode text).length
    ⟨[], text, if tooLong then host.decode ((host.encode text).take TOOL_RESULT_MAX_BYTES) else text, isBodyCut res || tooLong⟩

theorem present_text (resultPath : Option JsString) (res : HttpResponse ResponseRest) :
    (present host resultPath res).text = (resultParts host resultPath res).text := by
  unfold present
  rw [readBodyCapped_body]
  change (if !isOk res.status then errorResult _ else if !isTextLike host res then _ else if _ then _ else _).text = _
  unfold resultParts ResultParts.text
  dsimp only
  split
  · change _ ++ _ ++ (if (isTextLike host res && decide (host.decode (keptBytes res) ≠ [])) = true then _ else _) ++ _ = _
    cases isTextLike host res with
    | false => simp
    | true => by_cases hEmpty : host.decode (keptBytes res) = [] <;> simp [hEmpty]
  · split
    · simp
    · split
      · simp
      · rw [List.nil_append]
        rfl

/-! ## The cap -/

structure RespectsCap (isCut : Bool) (parts : ResultParts) : Prop where
  bounded : (Utf16.encode parts.relayed).length ≤ TOOL_RESULT_MAX_BYTES
  marked : isCut = true ∨ parts.relayed ≠ parts.whole → parts.marked = true

/-- Every piece that is not UTF-8 takes three bytes, and a byte order mark takes none. -/
def DecodesWithin (cap : Nat) (bytes : List Nat) : Prop :=
  bytes.length + 3 * (Utf8.illFormed bytes).length ≤
    cap + (Utf8.illFormed bytes).sum + if (Utf8.decode bytes).head? = some 0xFEFF then 3 else 0

/-- The cut is between two code points, or leaves three bytes of one, or there is a byte order mark to leave out. -/
def CutsWell (cap : Nat) (text : JsString) : Prop :=
  cap < (Utf16.encode text).length →
    Utf8.cutInto cap (points text) = 0 ∨ Utf8.cutInto cap (points text) = 3 ∨ (points text).head? = some 0xFEFF

def Spares (resultPath : Option JsString) (res : HttpResponse ResponseRest) : Prop :=
  if !isOk res.status then isTextLike host res = true → DecodesWithin TOOL_RESULT_MAX_BYTES (keptBytes res)
  else if !isTextLike host res then isBodyCut res = false
  else if res.status = 204 || Utf16.decode (keptBytes res) = [] then isBodyCut res = false
  else CutsWell TOOL_RESULT_MAX_BYTES
    (resultText host resultPath (isJsonBody host res) (isBodyCut res) (Utf16.decode (keptBytes res)))

theorem decodesWithin_iff (cap : Nat) (bytes : List Nat) :
    DecodesWithin cap bytes ↔ (Utf16.encode (Utf16.decode bytes)).length ≤ cap := by
  have hLength := length_encode_decode bytes
  unfold DecodesWithin
  split at hLength <;> rename_i hMark
  · rw [if_pos hMark]
    omega
  · rw [if_neg hMark]
    omega

theorem head?_fitting {cap : Nat} (hCap : 4 ≤ cap) {points : List Nat} (h : points ≠ []) (rest : List Nat) :
    (Utf8.fitting cap points ++ rest).head? = points.head? := by
  obtain ⟨point, points, rfl⟩ := List.exists_cons_of_ne_nil h
  have hWidth : Utf8.width point ≤ cap := by
    rw [Utf8.width_eq]
    split_ifs <;> omega
  rw [Utf8.fitting, if_pos hWidth]
  rfl

theorem cutsWell_iff {cap : Nat} (hCap : 4 ≤ cap) {text : JsString} (h : cap < (Utf16.encode text).length) :
    CutsWell cap text ↔ (Utf16.encode (Utf16.decode ((Utf16.encode text).take cap))).length ≤ cap := by
  have hPoints : points text ≠ [] := by
    intro hNone
    rw [Utf16.encode, hNone] at h
    exact Nat.not_lt_zero _ h
  have hLength := length_encode_decode_take (Nat.le_of_lt h)
  have hCut := Utf8.cutInto_lt cap (points text)
  rw [head?_fitting hCap hPoints] at hLength
  rw [CutsWell, forall_prop_of_true h]
  by_cases hMark : (points text).head? = some 0xFEFF
  · rw [if_pos hMark] at hLength
    refine iff_of_true (.inr (.inr hMark)) ?_
    split at hLength <;> omega
  · rw [if_neg hMark] at hLength
    split at hLength <;> rename_i hNone
    · exact iff_of_true (.inl hNone) (by omega)
    · simp only [hNone, hMark, false_or, or_false]
      omega

section Parts

variable {isCut : Bool} {line text : JsString}

omit host in
theorem respects_note : RespectsCap isCut ⟨line, [], [], false⟩ ↔ isCut = false := by
  constructor
  · intro h
    exact (Bool.not_eq_true _).mp fun hCut => Bool.false_ne_true (h.marked (.inl hCut))
  · rintro rfl
    exact ⟨Nat.zero_le _, fun hCut => hCut.elim id fun hPart => absurd rfl hPart⟩

omit host in
theorem respects_detail : RespectsCap isCut ⟨line, text, text, isCut⟩ ↔ (Utf16.encode text).length ≤ TOOL_RESULT_MAX_BYTES :=
  ⟨fun h => h.bounded, fun h => ⟨h, fun hCut => hCut.elim id fun hPart => absurd rfl hPart⟩⟩

omit host in
theorem respects_capped : RespectsCap isCut
    ⟨line, text, if TOOL_RESULT_MAX_BYTES < (Utf16.encode text).length then
        Utf16.decode ((Utf16.encode text).take TOOL_RESULT_MAX_BYTES) else text,
      isCut || TOOL_RESULT_MAX_BYTES < (Utf16.encode text).length⟩ ↔ CutsWell TOOL_RESULT_MAX_BYTES text := by
  by_cases hLong : TOOL_RESULT_MAX_BYTES < (Utf16.encode text).length
  · rw [if_pos hLong, decide_eq_true hLong, Bool.or_true, cutsWell_iff (by decide) hLong]
    exact ⟨fun h => h.bounded, fun h => ⟨h, fun _ => rfl⟩⟩
  · rw [if_neg hLong, decide_eq_false hLong, Bool.or_false, respects_detail]
    exact iff_of_true (Nat.not_lt.mp hLong) fun h => absurd h hLong

end Parts

theorem respectsCap_iff (resultPath : Option JsString) (res : HttpResponse ResponseRest) :
    RespectsCap (isBodyCut res) (resultParts host.web resultPath res) ↔ Spares host resultPath res := by
  have hTextLike : isTextLike host.web res = isTextLike host res := rfl
  unfold resultParts Spares
  rw [hTextLike]
  dsimp only
  split
  · rw [respects_detail]
    cases isTextLike host res with
    | false => exact iff_of_true (Nat.zero_le _) nofun
    | true =>
      rw [if_pos rfl, forall_prop_of_true rfl]
      exact (decodesWithin_iff _ _).symm
  · split
    · exact respects_note
    · change RespectsCap _ (if _ = 204 || decide (Utf16.decode (keptBytes res) = []) then _ else _) ↔ _
      split
      · exact respects_note
      · exact respects_capped

/-! ## A call -/

/-- The result of a call that a response ends. -/
theorem result_capped_iff (templateHost : TemplateHost) (input : ExecuteCustomToolInput)
    (upstream : List HttpRequest → Option (Fetched ResponseRest)) (n : Nat) {expanded : Template.ExpandedRequest} {first : Hop}
    (hFirst : firstHop templateHost input = .ok (expanded, first)) {res : HttpResponse ResponseRest}
    (hEnded : ((fetchWithPinnedOrigin templateHost expanded.origin).run upstream first n).now = .inl (.response res)) :
    ∃ result, (executeCustomTool templateHost (present host.web input.binding.resultPath) upstream input n).settled =
        some (.ok result) ∧
      result.text = (resultParts host.web input.binding.resultPath res).text ∧
      (RespectsCap (isBodyCut res) (resultParts host.web input.binding.resultPath res) ↔
        Spares host input.binding.resultPath res) := by
  refine ⟨present host.web input.binding.resultPath res, ?_, present_text host.web _ res, respectsCap_iff host _ res⟩
  rw [executeCustomTool, hFirst]
  dsimp only
  rw [hEnded]
  rfl

open OneUpstream

def textResponse (status : Nat) (bytes : List Nat) : HttpResponse ResponseRest :=
  ⟨status, none, ⟨[], some (utf16 "text/plain"), some [.chunk bytes]⟩⟩

def noJson : ResponseHost where
  decode := id
  encode := id
  parse _ := none
  stringify _ := []
  number _ := none
  trim := id
  toLowerCase := Headers.asciiLower

theorem short_text_is_relayed : ∃ result,
    (executeCustomTool apiHost (present noJson.web none) (fun _ => some (.response (textResponse 200 [104, 105]))) input 1).settled =
      some (.ok result) ∧
    result.text = [104, 105] ∧
    RespectsCap (isBodyCut (textResponse 200 [104, 105])) (resultParts noJson.web none (textResponse 200 [104, 105])) := by
  obtain ⟨expanded, first, hFirst⟩ : ∃ expanded first, firstHop apiHost input = .ok (expanded, first) := ⟨_, _, rfl⟩
  obtain ⟨result, hSettled, hText, hCapped⟩ := result_capped_iff noJson apiHost input
    (fun _ => some (.response (textResponse 200 [104, 105]))) 1 hFirst rfl
  refine ⟨result, hSettled, hText.trans (by decide), hCapped.mpr ?_⟩
  exact fun hLong => absurd hLong (by decide)

/-- A failure with a full body, none of it UTF-8. -/
theorem invalid_bytes_exceed : ¬ ∀ (templateHost : TemplateHost) (host : ResponseHost) (input : ExecuteCustomToolInput)
    (upstream : List HttpRequest → Option (Fetched ResponseRest)) (n : Nat) (expanded : Template.ExpandedRequest) (first : Hop),
    firstHop templateHost input = .ok (expanded, first) → ∀ res : HttpResponse ResponseRest,
      ((fetchWithPinnedOrigin templateHost expanded.origin).run upstream first n).now = .inl (.response res) →
        RespectsCap (isBodyCut res) (resultParts host.web input.binding.resultPath res) := by
  intro h
  obtain ⟨expanded, first, hFirst⟩ : ∃ expanded first, firstHop apiHost input = .ok (expanded, first) := ⟨_, _, rfl⟩
  have hBounded := (h apiHost noJson input
    (fun _ => some (.response (textResponse 500 (List.replicate TOOL_RESULT_MAX_BYTES 255)))) 1 expanded first hFirst _ rfl).bounded
  have hKept : keptBytes (textResponse 500 (List.replicate TOOL_RESULT_MAX_BYTES 255)) = List.replicate TOOL_RESULT_MAX_BYTES 255 := by
    change (List.replicate TOOL_RESULT_MAX_BYTES 255 ++ []).take TOOL_RESULT_MAX_BYTES = _
    rw [List.append_nil, List.take_replicate, Nat.min_self]
  have hRelayed : (resultParts noJson.web input.binding.resultPath (textResponse 500 (List.replicate TOOL_RESULT_MAX_BYTES 255))).relayed =
      Utf16.decode (List.replicate TOOL_RESULT_MAX_BYTES 255) := congrArg Utf16.decode hKept
  have hDecoded : Utf8.decode (List.replicate TOOL_RESULT_MAX_BYTES 255) =
      List.replicate (List.replicate TOOL_RESULT_MAX_BYTES 255).length 0xFFFD := Utf8.decode_of_invalid fun byte hMem => by
    rw [List.eq_of_mem_replicate hMem]
    omega
  have hLength := length_dropMark (Utf8.decode (List.replicate TOOL_RESULT_MAX_BYTES 255))
  rw [hRelayed, encode_decode] at hBounded
  rw [hDecoded, List.length_replicate] at hLength hBounded
  have hReplaced : ((List.replicate TOOL_RESULT_MAX_BYTES 0xFFFD).flatMap Utf8.encode).length = TOOL_RESULT_MAX_BYTES * 3 := by
    rw [List.length_flatMap, List.map_replicate, List.sum_replicate]
    rfl
  rw [hReplaced] at hLength
  have hCap : TOOL_RESULT_MAX_BYTES = 65536 := rfl
  split at hLength <;> omega

end CustomExecutor

end CommandSuite
