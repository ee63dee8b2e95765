import Uplink.Cli
import Uplink.Proofs.Call.Handover
import Uplink.Proofs.Variant.Meaning

/-! What a fetch sends of its data. Data that is a document is read and written again, other data is
sent as it is; and whole numbers survive that, so that a document with no other numbers arrives with
its meaning. -/

namespace Uplink.Cli

open Json (Meaning NumberText)
open Json.NumberText (IsSmallInteger)
open Json.Denotation (Any)
open Text.Utf8 (encode)

/-- The body that data makes: a document if it is one, else a text. -/
def dataBody (data : String) : Request.Body :=
  match Json.parse? data with
  | some document => .json (.ofJson document)
  | none => .text data

/-- Data makes the body of a request and nothing else. -/
theorem request_of_data {f : Fetch} {data : String} (hdata : f.data = some data) :
    f.request = ({ f with data := none } : Fetch).request.map fun r =>
      { r with body := some (dataBody data) } := by
  obtain ⟨url, method, headers, _, key, retry⟩ := f
  cases hdata
  dsimp only [Fetch.request, bind, Except.bind, dataBody]
  generalize List.foldlM Fetch.request.addHeader
    ((Request.ofMethod (method.map Char.toUpper) url).withRetry retry) headers = read
  split
  · rfl
  · cases read with
    | error e => rfl
    | ok r => cases Json.parse? data <;> cases key <;> rfl

theorem dataBody_of_document {data : String} {j : Json} (h : Json.Grammar.Document data.toList j) :
    dataBody data = .json (.ofJson j) := by
  rw [dataBody, Json.parse?, Json.ofChars?_eq_some_iff.mpr h]

theorem dataBody_of_not_document {data : String} (h : ∀ j, ¬Json.Grammar.Document data.toList j) :
    dataBody data = .text data := by
  have hnone : Json.parse? data = none := Option.eq_none_iff_forall_ne_some.mpr fun j hj =>
    h j (Json.ofChars?_eq_some_iff.mp hj)
  rw [dataBody, hnone]

/-- A fetch sends its data, and nothing else because of it: whether it sends at all is a matter of
the URL and the headers. All that its call hands over, in whichever of its attempts, is what may be
sent for it; and the call does hand its request over, once it is let through and the transport can
send to the URL. If the data is a document whose numbers are whole and at most `2^53`, the
body is a document of the same meaning, in whatever order the entries of maps are written: it is
nested in the same way, has the same keys and texts, its numbers are exactly those numbers, and of
members with the same key the last counts. This holds of documents that are too deep for the reader
as well, which are sent as they are. Any data that is no document, or none that the reader takes, is
sent as it is, and no type is set for it. -/
theorem data_arrives {f : Fetch} {data : String} (hdata : f.data = some data) :
    (f.request = ({ f with data := none } : Fetch).request.map fun r =>
      { r with body := some (dataBody data) }) ∧
    ∀ r, f.request = .ok r →
      ((∃ out, r.MaySend out) ↔ ∃ out, ({ r with body := none } : Request).MaySend out) ∧
      Call.HandsOver r ∧ ∀ out, r.MaySend out →
        (∀ m, Json.Denotes IsSmallInteger data.toList m →
          ∃ cs, out.body = encode cs ∧ Json.Denotes Any cs m) ∧
        ((∀ m, ¬Json.Denotes Any data.toList m) ∨ (∀ j, ¬Json.Grammar.Document data.toList j) →
          r.body = some (.text data) ∧ out.body = encode data.toList ∧
            out.headers.Perm r.ownFields) := by
  have hrequest := request_of_data hdata
  refine ⟨hrequest, fun r hr => ⟨?_, Call.handsOver r, fun out hout => ?_⟩⟩
  · rw [Request.exists_maySend_iff, Request.exists_maySend_iff]
  have hbody : r.body = some (dataBody data) := by
    rw [hrequest] at hr
    cases hbare : ({ f with data := none } : Fetch).request with
    | error e =>
      rw [hbare] at hr
      cases hr
    | ok r₀ =>
      rw [hbare] at hr
      obtain rfl := Except.ok.inj hr
      rfl
  have htext (hnone : ∀ j, ¬Json.Grammar.Document data.toList j) : r.body = some (.text data) ∧
      out.body = encode data.toList ∧ out.headers.Perm r.ownFields := by
    rw [dataBody_of_not_document hnone] at hbody
    exact ⟨hbody, hout.of_text hbody⟩
  constructor
  · intro m hm
    by_cases hdocument : ∃ j, Json.Grammar.Document data.toList j
    · obtain ⟨j, hj⟩ := hdocument
      rw [dataBody_of_document hj] at hbody
      obtain ⟨w, hw, hbytes⟩ := hout.of_json hbody
      exact ⟨w.chars, hbytes, Variant.denotes_read hm hj hw⟩
    · exact ⟨data.toList, (htext (not_exists.mp hdocument)).2.1, Json.Denotation.Element.any hm⟩
  · rintro (hnone | hnone)
    · refine htext fun j hj => ?_
      obtain ⟨m, hm⟩ := Json.Grammar.Element.denotes hj
      exact hnone m hm
    · exact htext hnone

/-- A fetch of data from a host. -/
def posting (data : String) : Fetch := { url := "http://host/", data := some data }

/-- The URL of such a fetch. -/
def postingUrl : Url := ⟨"http", some ⟨"", none, .domain "host", none⟩, .segments [""], none, none⟩

/-- A call of such a fetch, to a far end that takes whatever it is sent. -/
def handedToHost (r : Request) : List Outgoing :=
  Call.handed .default [] r Call.taking (fun _ _ s => s) 0 (.ofCeilings 1 (.ofMillis 1000) ∅) ()

theorem request_posting (data : String) : (posting data).request =
    .ok { Request.ofMethod "GET" "http://host/" with body := some (dataBody data) } := by
  have hbare : (⟨"http://host/", "GET", [], none, none, true⟩ : Fetch).request =
      .ok (.ofMethod "GET" "http://host/") := by with_unfolding_all rfl
  exact (request_of_data (f := posting data) rfl).trans (congrArg _ hbare)

/-- The call of a fetch to the host hands something over, with whatever data. -/
theorem exists_handedToHost {body : Option Request.Body}
    (h : Call.HandsOver { Request.ofMethod "GET" "http://host/" with body }) :
    ∃ out, Request.MaySend { Request.ofMethod "GET" "http://host/" with body } out ∧
      out ∈ handedToHost { Request.ofMethod "GET" "http://host/" with body } := by
  have hbody : Option.Rel Request.Body.Same body body := by
    cases body with
    | none => exact .none
    | some body => exact .some (.refl body)
  have hurl : Url.parse "http://host/" = .ok postingUrl := by with_unfolding_all rfl
  have hsendable : Outgoing.isSendable postingUrl.withoutCredentials = true := by decide +kernel
  obtain ⟨hmay, hdoes⟩ := h .default [] body Call.taking (fun _ _ s => s) 0
    (.ofCeilings 1 (.ofMillis 1000) ∅) () .nil hbody
  have hmem := hdoes _ (Outgoing.ofRequest_of_fields hurl rfl) (if_pos hsendable)
    fun _ hkey => nomatch hkey
  exact ⟨_, hmay _ hmem, hmem⟩

/-- A document that binds a key to 1 and then to -2. -/
theorem denotes_bound_twice :
    Json.Denotes IsSmallInteger "\x7b\"k\":1,\"k\":-2\x7d".toList
      (.object fun key => if key = "k" then some (.number (-2)) else none) := by
  have hkey : Json.Grammar.TextSpelled "k".toList ['k'] :=
    .cons (.plain (by decide) (by decide) (by decide)) .nil
  have hmember (t : NumberText) (ht : t.WellFormed) (hsmall : t.IsSmallInteger) :
      Json.Denotation.Member IsSmallInteger ('"' :: 'k' :: '"' :: ':' :: t.chars)
        ("k", .number t.rational) :=
    .mk Json.Grammar.spaces_nil hkey Json.Grammar.spaces_nil
      (Json.Denotation.element_of_value (.number ht t.spelled_chars hsmall))
  have hone := hmember ⟨false, [1], [], none⟩
    ⟨by decide, by decide, by decide, by decide, nofun, nofun⟩ ⟨rfl, rfl, by decide⟩
  have htwo := hmember ⟨true, [2], [], none⟩
    ⟨by decide, by decide, by decide, by decide, nofun, nofun⟩ ⟨rfl, rfl, by decide⟩
  have hdocument := Json.Denotation.element_of_value (.object (.cons hone (.one htwo)))
  have hmeaning : Meaning.ofPairs [("k", .number (NumberText.rational ⟨false, [1], [], none⟩)),
      ("k", .number (NumberText.rational ⟨true, [2], [], none⟩))] =
        .object fun key => if key = "k" then some (.number (-2)) else none := by
    have hrational : NumberText.rational ⟨true, [2], [], none⟩ = -2 :=
      (NumberText.rational_of_isSmallInteger ⟨rfl, rfl, by decide⟩).trans
        (by norm_num [Json.ofDigits])
    refine congrArg Meaning.object (funext fun key => ?_)
    rw [hrational]
    split
    · next h =>
      subst h
      rfl
    · next h =>
      have hne : ("k" == key) = false := beq_eq_false_iff_ne.mpr (Ne.symm h)
      simp [lastEntry, hne]
  rw [← hmeaning]
  exact hdocument

/-- The second of two members with the same key arrives, and a form that is no document arrives as
it is. -/
theorem data_arrives_of_posting :
    (∃ r out cs, (posting "\x7b\"k\":1,\"k\":-2\x7d").request = .ok r ∧ r.MaySend out ∧
      out ∈ handedToHost r ∧ out.body = encode cs ∧
        Json.Denotes Any cs (.object fun key => if key = "k" then some (.number (-2)) else none)) ∧
    ∃ r out, (posting "a=b").request = .ok r ∧ r.MaySend out ∧ out ∈ handedToHost r ∧
      out.headers = [] ∧ out.body = [0x61, 0x3d, 0x62] := by
  constructor
  · obtain ⟨-, harrives⟩ := data_arrives (f := posting "\x7b\"k\":1,\"k\":-2\x7d") rfl
    obtain ⟨-, hhands, hmeans⟩ := harrives _ (request_posting _)
    obtain ⟨out, hmay, hmem⟩ := exists_handedToHost hhands
    obtain ⟨cs, hbytes, hcs⟩ := (hmeans out hmay).1 _ denotes_bound_twice
    exact ⟨_, out, cs, request_posting _, hmay, hmem, hbytes, hcs⟩
  · obtain ⟨-, harrives⟩ := data_arrives (f := posting "a=b") rfl
    obtain ⟨-, hhands, hmeans⟩ := harrives _ (request_posting _)
    obtain ⟨out, hmay, hmem⟩ := exists_handedToHost hhands
    have hnone (j : Json) : ¬Json.Grammar.Document "a=b".toList j := fun hj => by
      have hread : (Json.ofChars? "a=b".toList).isNone = true := by decide +kernel
      rw [Json.ofChars?_eq_some_iff.mpr hj] at hread
      cases hread
    obtain ⟨-, hbytes, hheaders⟩ := (hmeans out hmay).2 (.inr hnone)
    exact ⟨_, out, request_posting _, hmay, hmem, hheaders.eq_nil, hbytes⟩

end Uplink.Cli
