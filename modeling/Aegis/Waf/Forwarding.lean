import Aegis.Waf.Proxy

/-! What arrives at the backend and what comes back. On the way the query and the headers
pass through dictionaries with one value for each name. -/
namespace Aegis.Waf

def isHost (name : Text) : Bool := name = "host".toList

/-- The request as it came in, for the backend. -/
def Request.forwardable (r : Request) : Forwarded :=
  ⟨r.method, r.path, r.queryParams, r.headers.filter (fun h => !isHost h.1), r.body⟩

/-- What is sent has the query and the headers of the request, and what comes back has
the headers of the answer. -/
def Transparent (rt : Runtime) (r : Request) : Prop :=
  ∀ sent, (reverseProxy rt r).forwarded = some sent →
    sent.params = r.queryParams ∧ sent.headers = r.headers.filter (fun h => !isHost h.1) ∧
    ∀ answer, rt.backend sent = .answers answer →
      ∃ response, (reverseProxy rt r).response = some response ∧
        response.headers = answer.headers

/-- No name repeats in the query, in the headers that are passed on, and in the headers
of the answer to the request as it came in. -/
structure DistinctNames (rt : Runtime) (r : Request) : Prop where
  query : (r.queryParams.map Prod.fst).Nodup
  headers : ((r.headers.filter (fun h => !isHost h.1)).map Prod.fst).Nodup
  answer : ∀ answer, rt.backend r.forwardable = .answers answer →
    (answer.headers.map Prod.fst).Nodup

def sentFor (r : Request) : Forwarded :=
  ⟨r.method, r.path, queryDict r.queryParams, headerDict (r.headers.filter (fun h => !isHost h.1)),
    r.body⟩

theorem headerDict_filter (headers : List (Text × Text)) :
    (headerDict headers).filter (fun h => h.1 ≠ "host".toList) =
      headerDict (headers.filter (fun h => !isHost h.1)) := by
  have hkeep : ∀ h : Text × Text, decide (h.1 ≠ "host".toList) = !isHost h.1 := by
    intro h
    simp [isHost]
  have hfilter := MultiMap.filter_dict (fun first _ => first) (fun name => !isHost name) headers
  unfold headerDict
  simp only [hkeep]
  exact hfilter

/-- A request that scores no more than the threshold is sent, and the answer comes back
with its headers joined. -/
theorem reverseProxy_passed {rt : Runtime} {r : Request}
    (h : ¬ .fin 0.95 < aiThreatDetection rt.caseData rt.onnxScore (extractHttpFeatures r)) :
    (reverseProxy rt r).forwarded = some (sentFor r) ∧
      ∀ answer, rt.backend (sentFor r) = .answers answer →
        (reverseProxy rt r).response = some { answer with headers := joinedDict answer.headers } := by
  unfold reverseProxy
  dsimp only
  rw [if_neg h, headerDict_filter]
  refine ⟨rfl, fun answer hanswer => ?_⟩
  unfold sentFor at hanswer
  simp only [hanswer]

theorem sentFor_eq_forwardable {r : Request} (hquery : queryDict r.queryParams = r.queryParams)
    (hheaders : headerDict (r.headers.filter (fun h => !isHost h.1)) =
      r.headers.filter (fun h => !isHost h.1)) : sentFor r = r.forwardable := by
  unfold sentFor Request.forwardable
  rw [hquery, hheaders]

/-- A request that is let through passes transparently exactly if no name repeats. -/
theorem transparent_iff (rt : Runtime) (r : Request) :
    Transparent rt r ↔
      (¬ .fin 0.95 < aiThreatDetection rt.caseData rt.onnxScore (extractHttpFeatures r) →
        DistinctNames rt r) := by
  by_cases hscore : .fin 0.95 < aiThreatDetection rt.caseData rt.onnxScore (extractHttpFeatures r)
  · have hdenied := (denied_iff rt r).mpr hscore
    refine iff_of_true ?_ (fun h => absurd hscore h)
    intro sent hsent
    rw [hdenied.1] at hsent
    cases hsent
  obtain ⟨hforwarded, hresponse⟩ := reverseProxy_passed hscore
  constructor
  · intro h _
    obtain ⟨hparams, hheaders, hback⟩ := h _ hforwarded
    have hsent := sentFor_eq_forwardable hparams hheaders
    refine ⟨(MultiMap.dict_eq_self_iff _ _).mp hparams,
      (MultiMap.dict_eq_self_iff _ _).mp hheaders, fun answer hanswer => ?_⟩
    rw [← hsent] at hanswer
    obtain ⟨response, hres, hjoined⟩ := hback answer hanswer
    rw [hresponse answer hanswer] at hres
    rw [← Option.some.inj hres] at hjoined
    exact (MultiMap.dict_eq_self_iff _ _).mp hjoined
  · intro h sent hsent
    have hdistinct := h hscore
    have hparams : queryDict r.queryParams = r.queryParams :=
      (MultiMap.dict_eq_self_iff _ _).mpr hdistinct.query
    have hheaders : headerDict (r.headers.filter (fun h => !isHost h.1)) =
        r.headers.filter (fun h => !isHost h.1) :=
      (MultiMap.dict_eq_self_iff _ _).mpr hdistinct.headers
    rw [hforwarded] at hsent
    rw [← Option.some.inj hsent]
    refine ⟨hparams, hheaders, fun answer hanswer => ?_⟩
    have hnodup : (answer.headers.map Prod.fst).Nodup := by
      apply hdistinct.answer
      rw [← sentFor_eq_forwardable hparams hheaders]
      exact hanswer
    exact ⟨_, hresponse answer hanswer, (MultiMap.dict_eq_self_iff _ _).mpr hnodup⟩

/-- `GET /list?id=1&id=2`, which the model finds harmless. -/
def repeatedQuery : Request where
  method := "GET".toList
  path := "/list".toList
  query := "id=1&id=2".toList
  headers := [("host".toList, "shop.example".toList)]
  body := []
  queryParams := [("id".toList, "1".toList), ("id".toList, "2".toList)]
  clientHost := "10.0.0.9".toList

def twoCookies : Runtime where
  caseData := asciiCaseData
  onnxScore := fun _ => .fin 0
  backend := fun _ => .answers ⟨200, [("set-cookie".toList, "a=1".toList),
    ("set-cookie".toList, "b=2".toList)], []⟩
  time := .fin 0
  floatText := fun _ => []

/-- The backend is asked for `id=2` alone. -/
theorem first_value_dropped : ¬ Transparent twoCookies repeatedQuery := by
  intro h
  have hpassed : ¬ FloatVal.fin 0.95 < aiThreatDetection twoCookies.caseData
      twoCookies.onnxScore (extractHttpFeatures repeatedQuery) := by decide +kernel
  obtain ⟨hforwarded, -⟩ := reverseProxy_passed hpassed
  obtain ⟨hparams, -⟩ := h _ hforwarded
  exact absurd hparams (by decide +kernel)

end Aegis.Waf
