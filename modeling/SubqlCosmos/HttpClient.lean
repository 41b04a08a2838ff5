import SubqlCosmos.Js.Url
import SubqlCosmos.Js.Value

/-!
# API keys of endpoints

The constructor of `HttpClient` (`indexer/rpc-clients/HttpClient.ts`), which takes an API key out of
the URL of an endpoint and puts it into a header.
-/

namespace SubqlCosmos

open Js

/-! ## The constructor -/

/-- Header names and their values. -/
abbrev Headers := String → Option String

/-- `HttpEndpoint`. -/
structure HttpEndpoint where
  url : String
  headers : Option Headers

/-- What the constructor is given. -/
inductive Endpoint
  | text (endpoint : String)
  | http (endpoint : HttpEndpoint)

/-- The base URL and the headers the client sends its requests with. -/
structure HttpClient where
  url : String
  headers : Option Headers

/-- `hasProtocol`. -/
def hasProtocol (url : String) : Bool := (before? "://".toList url.toList).isSome

namespace Endpoint

/-- The URL of the endpoint. -/
def url : Endpoint → String
  | text endpoint => if hasProtocol endpoint then endpoint else "http://" ++ endpoint
  | http endpoint => endpoint.url

/-- The headers of the endpoint. -/
def headers : Endpoint → Option Headers
  | text _ => none
  | http endpoint => endpoint.headers

end Endpoint

/-- The name of the parameter. -/
def apikey : List Char := ['a', 'p', 'i', 'k', 'e', 'y']

/-- `url.slice(0, url.indexOf('?apikey'))`, where the index is -1 if there is no such text. -/
def cutKey (url : String) : String :=
  String.ofList
    (match before? ('?' :: apikey) url.toList with
    | some front => front
    | none => dropUnit url.toList)

/-- The constructor of `HttpClient`, given the texts `new URL` accepts. -/
def HttpClient.create (isUrl : String → Bool) (endpoint : Endpoint) : Except Error HttpClient :=
  if ¬isUrl endpoint.url then .error { name := "TypeError", message := "Invalid URL" }
  else
    match getParam (searchParams endpoint.url.toList) apikey with
    | none | some [] => .ok { url := endpoint.url, headers := endpoint.headers }
    | some (first :: value) =>
        match endpoint.headers with
        | none =>
            .error
              { name := "TypeError"
                message := "Cannot set properties of undefined (setting 'apikey')" }
        | some headers =>
            .ok
              { url := cutKey endpoint.url
                headers :=
                  some (Function.update headers "apikey" (some (String.ofList (first :: value)))) }

/-! ## Moving the key -/

/-- The value of a header. -/
def header (headers : Option Headers) (name : String) : Option String :=
  headers.bind fun headers => headers name

/-- The key has moved from the URL to the header, and nothing else has changed. -/
structure Moved (endpoint : Endpoint) (client : HttpClient) : Prop where
  key : ∃ key : String, key ≠ "" ∧ (apikey, key.toList) ∈ searchParams endpoint.url.toList ∧
    header client.headers "apikey" = some key
  otherHeaders : ∀ name, name ≠ "apikey" → header client.headers name = header endpoint.headers name
  front : frontPart client.url.toList = frontPart endpoint.url.toList
  params : searchParams client.url.toList =
    (searchParams endpoint.url.toList).filter fun param => param.1 ≠ apikey
  fragment : fragmentPart client.url.toList = fragmentPart endpoint.url.toList

/-- An endpoint with an accepted URL whose query holds an API key. -/
structure KeyedEndpoint (isUrl : String → Bool) where
  endpoint : Endpoint
  accepted : isUrl endpoint.url = true
  keyed : ∃ key : String, key ≠ "" ∧ (apikey, key.toList) ∈ searchParams endpoint.url.toList

/-- The client is made, and the key has moved. -/
def MovesKey (isUrl : String → Bool) (endpoint : Endpoint) : Prop :=
  ∃ client, HttpClient.create isUrl endpoint = .ok client ∧ Moved endpoint client

/-- The endpoint has headers, its query begins with the name of the parameter and holds no other
parameter, the first value is not empty, and no fragment follows. -/
structure KeyAlone (endpoint : Endpoint) : Prop where
  headers : endpoint.headers.isSome
  leads : '?' :: apikey <+: endpoint.url.toList.dropWhile (· ≠ '?')
  first : ∃ value ≠ [], getParam (searchParams endpoint.url.toList) apikey = some value
  alone : ∀ param ∈ searchParams endpoint.url.toList, param.1 = apikey
  whole : '#' ∉ endpoint.url.toList

theorem not_moved_of_kept {endpoint : Endpoint} {client : HttpClient}
    (kept : ∃ param ∈ searchParams client.url.toList, param.1 = apikey) :
    ¬Moved endpoint client := by
  intro moved
  obtain ⟨param, member, named⟩ := kept
  rw [moved.params] at member
  simpa [named] using (List.mem_filter.mp member).2

theorem mem_of_getParam {params : List (List Char × List Char)} {name value : List Char}
    (found : getParam params name = some value) : (name, value) ∈ params := by
  obtain ⟨param, first, rfl⟩ := Option.map_eq_some_iff.mp found
  have named : param.1 = name := by simpa using List.find?_some first
  have member := List.mem_of_find?_eq_some first
  rw [← named]
  exact member

theorem fragmentPart_eq_nil {text : List Char} : fragmentPart text = [] ↔ '#' ∉ text :=
  dropWhile_ne_eq_nil_iff

theorem frontPart_append {front : List Char} (noMark : '?' ∉ front) (noHash : '#' ∉ front) :
    frontPart front = front ∧ ∀ back, frontPart (front ++ '?' :: back) = front := by
  have before : ∀ c ∈ front, decide (c ≠ '?' ∧ c ≠ '#') = true := by
    intro c member
    have notMark : c ≠ '?' := ne_of_mem_of_not_mem member noMark
    have notHash : c ≠ '#' := ne_of_mem_of_not_mem member noHash
    simp [notMark, notHash]
  refine ⟨List.takeWhile_eq_self_iff.mpr before, fun back => ?_⟩
  rw [frontPart, List.takeWhile_append_of_pos before]
  simp

/-- What stands before a key that is cut off keeps the front exactly when the query begins there. -/
theorem keyAlone_of_moved {endpoint : Endpoint} {headers : Headers} {value : List Char}
    (front back : List Char) (given : endpoint.headers = some headers)
    (first : getParam (searchParams endpoint.url.toList) apikey = some value)
    (nonempty : value ≠ [])
    (split : endpoint.url.toList = front ++ '?' :: (apikey ++ back)) {client : HttpClient}
    (cut : client.url.toList = front) (moved : Moved endpoint client) : KeyAlone endpoint := by
  have keyed := mem_of_getParam first
  have noMark : '?' ∉ front := by
    intro mark
    have params := moved.params
    rw [cut, split] at params
    have named : ∃ param ∈ searchParams (front ++ '?' :: (apikey ++ back)), param.1 = apikey := by
      rw [← split]
      exact ⟨(apikey, value), keyed, rfl⟩
    exact searchParams_ne_filter mark (by decide) (by simp [apikey, isBlank]) named params
  have noHash : '#' ∉ front := by
    intro hash
    have none := searchParams_of_hash hash noMark (apikey ++ back)
    rw [← split] at none
    simp [none] at keyed
  refine ⟨by simp [given], ?_, ⟨value, nonempty, first⟩, ?_, ?_⟩
  · rw [split, dropWhile_ne_append noMark]
    exact ⟨back, by simp⟩
  · have params := moved.params
    rw [cut, searchParams_of_not_mem noMark] at params
    intro param member
    by_contra other
    have kept : param ∈ (searchParams endpoint.url.toList).filter fun param => param.1 ≠ apikey :=
      List.mem_filter.mpr ⟨member, by simpa using other⟩
    rw [← params] at kept
    exact absurd kept List.not_mem_nil
  · have fragment := moved.fragment
    rw [cut, fragmentPart_eq_nil.mpr noHash] at fragment
    exact fragmentPart_eq_nil.mp fragment.symm

/-- A key that moves is alone in the query. -/
theorem keyAlone_of_movesKey {isUrl : String → Bool} (keyed : KeyedEndpoint isUrl)
    (moves : MovesKey isUrl keyed.endpoint) : KeyAlone keyed.endpoint := by
  obtain ⟨endpoint, accepted, key, keyNonempty, listed⟩ := keyed
  obtain ⟨client, created, moved⟩ := moves
  dsimp only at created moved ⊢
  have valueNonempty : key.toList ≠ [] := by simpa using keyNonempty
  rw [HttpClient.create, if_neg (by simp [accepted])] at created
  split at created
  · obtain rfl := Except.ok.inj created
    exact absurd moved (not_moved_of_kept ⟨_, listed, rfl⟩)
  · obtain rfl := Except.ok.inj created
    exact absurd moved (not_moved_of_kept ⟨_, listed, rfl⟩)
  · rename_i first value found
    split at created
    · cases created
    · rename_i headers given
      obtain rfl := Except.ok.inj created
      cases search : before? ('?' :: apikey) endpoint.url.toList with
      | some front =>
          obtain ⟨back, split⟩ := split_of_before? search
          refine keyAlone_of_moved front back given found (by simp) (by simpa using split) ?_ moved
          simp [cutKey, search]
      | none =>
          -- the last unit is cut off instead, which leaves a parameter of that name
          refine absurd moved (not_moved_of_kept ?_)
          simpa [cutKey, search] using named_of_dropUnit listed valueNonempty

/-- A key that is alone in the query moves. -/
theorem movesKey_of_keyAlone {isUrl : String → Bool} {endpoint : Endpoint}
    (accepted : isUrl endpoint.url = true) (alone : KeyAlone endpoint) :
    MovesKey isUrl endpoint := by
  obtain ⟨headers, given⟩ := Option.isSome_iff_exists.mp alone.headers
  obtain ⟨value, nonempty, found⟩ := alone.first
  obtain ⟨first, value, rfl⟩ := List.exists_cons_of_ne_nil nonempty
  have cut := before?_of_first alone.leads
  obtain ⟨back, behind⟩ := alone.leads
  have split : endpoint.url.toList =
      endpoint.url.toList.takeWhile (· ≠ '?') ++ '?' :: (apikey ++ back) := by
    rw [← List.cons_append, behind, List.takeWhile_append_dropWhile]
  have noMark : '?' ∉ endpoint.url.toList.takeWhile (· ≠ '?') := fun member => by
    simpa using List.mem_takeWhile_imp member
  have noHash : '#' ∉ endpoint.url.toList.takeWhile (· ≠ '?') := fun member =>
    alone.whole ((List.takeWhile_prefix _).subset member)
  have cutUrl : (cutKey endpoint.url).toList = endpoint.url.toList.takeWhile (· ≠ '?') := by
    rw [cutKey, cut, String.toList_ofList]
  refine ⟨_, by rw [HttpClient.create, if_neg (by simp [accepted]), found, given], ?_⟩
  refine ⟨⟨String.ofList (first :: value), by simp, ?_, ?_⟩, ?_, ?_, ?_, ?_⟩
  · simpa using mem_of_getParam found
  · simp [header]
  · intro name other
    simp [header, given, Function.update_of_ne other]
  · have front := (frontPart_append noMark noHash).2 (apikey ++ back)
    rw [← split] at front
    rw [cutUrl, (frontPart_append noMark noHash).1, front]
  · rw [cutUrl, searchParams_of_not_mem noMark]
    refine (List.filter_eq_nil_iff.mpr fun param member => ?_).symm
    simp [alone.alone param member]
  · rw [cutUrl, fragmentPart_eq_nil.mpr noHash, fragmentPart_eq_nil.mpr alone.whole]

/-- The key moves and nothing else changes exactly when it is alone in the query of an endpoint with
headers. -/
theorem movesKey_iff (isUrl : String → Bool) (endpoint : KeyedEndpoint isUrl) :
    MovesKey isUrl endpoint.endpoint ↔ KeyAlone endpoint.endpoint :=
  ⟨keyAlone_of_movesKey endpoint, movesKey_of_keyAlone endpoint.accepted⟩

/-- An endpoint with headers whose query holds another parameter before the key. -/
def pagedEndpoint : KeyedEndpoint fun _ => true where
  endpoint := .http { url := "http://h/?a=1&apikey=k", headers := some fun _ => none }
  accepted := rfl
  keyed := ⟨"k", by decide, by decide⟩

/-- An endpoint given as a text. -/
def textEndpoint : KeyedEndpoint fun _ => true where
  endpoint := .text "http://h/?apikey=k"
  accepted := rfl
  keyed := ⟨"k", by decide, by decide⟩

theorem key_not_moved :
    ((∃ client, HttpClient.create (fun _ => true) pagedEndpoint.endpoint = .ok client ∧
        client.url = "http://h/?a=1&apikey=") ∧
      ¬MovesKey (fun _ => true) pagedEndpoint.endpoint) ∧
      HttpClient.create (fun _ => true) textEndpoint.endpoint =
          .error
            { name := "TypeError"
              message := "Cannot set properties of undefined (setting 'apikey')" } ∧
        ¬MovesKey (fun _ => true) textEndpoint.endpoint := by
  have thrown : HttpClient.create (fun _ => true) textEndpoint.endpoint =
      .error
        { name := "TypeError"
          message := "Cannot set properties of undefined (setting 'apikey')" } := rfl
  refine ⟨⟨⟨_, rfl, by decide⟩, ?_⟩, thrown, ?_⟩
  · rintro ⟨client, created, moved⟩
    obtain rfl := Except.ok.inj created
    exact absurd moved.params (by decide)
  · rintro ⟨client, created, -⟩
    rw [thrown] at created
    cases created

end SubqlCosmos
