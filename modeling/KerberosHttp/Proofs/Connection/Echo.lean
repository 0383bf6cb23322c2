import KerberosHttp.Proofs.Connection.Result
import KerberosHttp.Proofs.Transport.Reading
import KerberosHttp.Transport.Scripted
import KerberosHttp.Url.Ascii

/-!
# A transport that echoes

A transport that answers with what it was sent gives back the message that was sent,
without its headers.

Nothing on the way may show: not how the answer is cut into pieces, nor how often a read
of it is interrupted (`Stream.Cuts.readToEnd_eq`), nor where the message came from
(`Soap.Origin.ofBytes_content`), nor what was done to its headers since, which touches
nothing else.  What is left is that octets which were a message once are the same message
again.
-/

namespace KerberosHttp

/-! ## Where a message comes from -/

namespace Soap

/-- What a message is made from. -/
inductive Origin
  | body (text : String)
  | octets (content : Bytes)
  | stream (source : Stream)

/-- The message that is made. -/
def Origin.message (version : Version) : Origin → Except MessageError Message
  | body text => Message.ofBody version text
  | octets content => Message.ofBytes version content
  | stream source => Message.ofStream version source

variable {version : Version} {made : Message}

theorem Origin.exists_octets {origin : Origin} (hmade : origin.message version = .ok made) :
    ∃ content, Message.ofBytes version content = .ok made := by
  cases origin with
  | body text =>
      rw [Origin.message, Message.ofBody] at hmade
      exact ⟨_, hmade⟩
  | octets content =>
      rw [Origin.message] at hmade
      exact ⟨content, hmade⟩
  | stream source =>
      rw [Origin.message] at hmade
      cases hread : source.readToEnd with
      | ok content =>
          rw [Message.ofStream_eq_ofBytes hread] at hmade
          exact ⟨content, hmade⟩
      | error error =>
          rw [Message.ofStream_eq_io_iff.mpr hread] at hmade
          cases hmade

/-- A message is what its octets are, wherever it comes from. -/
theorem Origin.ofBytes_content {origin : Origin} (hmade : origin.message version = .ok made) :
    Message.ofBytes version made.content = .ok made := by
  obtain ⟨content, hbytes⟩ := Origin.exists_octets hmade
  obtain ⟨-, -, hcontent, -⟩ := Message.ofBytes_eq_ok_iff.mp hbytes
  rw [hcontent]
  exact hbytes

end Soap

/-! ## The echo -/

namespace Connection

section AnyTransport

variable {σ : Type} [HttpTransport σ]

/-- From here on a transport connects, and answers with the entity that it is sent. -/
def Echoes (transport : σ) (url : Url) (body : Bytes) : Prop :=
  ∃ connected after stream,
    HttpTransport.connect transport url body = (.ok (), connected) ∧
      HttpTransport.openInput connected = (.ok stream, after) ∧ stream.Cuts body

variable [Url.Reader]

/-- A message can be sent to an address over a connection, whose transport echoes it, and
which reads answers of the version that it has. -/
structure ReachesEcho (connection : Connection σ) (request : Soap.Message) (endpoint : String) :
    Prop where
  version : connection.responseVersion = request.version
  sends : ∃ transport headers url, connection.transport = some transport ∧
    CallHeaders.ofMime request.mime = .ok headers ∧ Url.parse endpoint = .ok url ∧
      Echoes (queue transport headers.toList) url request.content

/-- What comes back from an echo is the message that the octets are. -/
theorem ReachesEcho.call {connection : Connection σ} {request : Soap.Message} {endpoint : String}
    (hreaches : ReachesEcho connection request endpoint) :
    (connection.call request endpoint).1 =
      answer (Soap.Message.ofBytes request.version request.content) := by
  obtain ⟨hversion, transport, headers, url, howned, hheaders, hparse, hechoes⟩ := hreaches
  obtain ⟨connected, after, stream, hconnect, hopen, hcuts⟩ := hechoes
  have hconnects : Connects request endpoint transport headers url (.ok ()) connected :=
    ⟨hheaders, hparse, hconnect⟩
  have hread : Stream.entity (.ok stream) = .ok request.content := hcuts.readToEnd_eq
  rw [← hversion]
  exact (call_of_exchanges howned (.answered hconnects hopen hread)).1

/-- **An echo gives the message back.**  Whatever is done to the headers of a message, its
content, its operation and its fault stay as they are.  So a message that was made from a
body, from octets or from a stream, and whose headers were changed in any way that leaves
them such that they can be sent, comes back from a transport that answers with what it is
sent, in whatever pieces: of the same version, with the same octets, the same operation and
the same fault, and without headers. -/
theorem call_echo (edits : List Soap.MimeEdit) :
    (∀ message : Soap.Message,
      (message.editMime edits).content = message.content ∧
      (message.editMime edits).operation = message.operation ∧
      (message.editMime edits).fault = message.fault) ∧
    ∀ (origin : Soap.Origin) (version : Soap.Version) (made : Soap.Message)
      (connection : Connection σ) (endpoint : String), origin.message version = .ok made →
        ReachesEcho connection (made.editMime edits) endpoint →
        ∃ answer, (connection.call (made.editMime edits) endpoint).1 = .ok answer ∧
          answer.version = (made.editMime edits).version ∧
          answer.content = (made.editMime edits).content ∧
          answer.operation = (made.editMime edits).operation ∧
          answer.fault = (made.editMime edits).fault ∧ answer.mime = ∅ := by
  refine ⟨fun message => ⟨?_, ?_, ?_⟩, ?_⟩
  · exact message.editMime_content edits
  · exact message.editMime_operation edits
  · exact message.editMime_fault edits
  · intro origin version made connection endpoint hmade hreaches
    -- The octets are those that the message was made from, so they are that message.
    have hbytes : Soap.Message.ofBytes version made.content = .ok made :=
      Soap.Origin.ofBytes_content hmade
    obtain ⟨-, hversion, -, hmime⟩ := Soap.Message.ofBytes_eq_ok_iff.mp hbytes
    have hcall : (connection.call (made.editMime edits) endpoint).1 = .ok made := by
      rw [hreaches.call, Soap.Message.editMime_version, Soap.Message.editMime_content, hversion,
        hbytes]
      rfl
    refine ⟨made, hcall, ?_, ?_, ?_, ?_, hmime⟩
    · exact (made.editMime_version edits).symm
    · exact (made.editMime_content edits).symm
    · exact (made.editMime_operation edits).symm
    · exact (made.editMime_fault edits).symm

end AnyTransport

section Pieces

private def faultBody : String := "<env:Fault><faultcode>a</faultcode></env:Fault>"

private def faultContent : Bytes :=
  Utf8.encode (Soap.Message.opening .v1_1 ++ faultBody ++ Soap.Message.closing)

private theorem read_faultContent :
    Soap.Envelope.read .v1_1 faultContent = .ok ⟨some "Fault", some ⟨"a", ""⟩⟩ := by
  have hdocument : Xml.Document.read faultContent =
      ⟨[.other, .start (Soap.Version.named .v1_1 "Envelope"),
        .start (Soap.Version.named .v1_1 "Body"), .start (Soap.Version.named .v1_1 "Fault"),
        .start ⟨"faultcode", none⟩, .text (Bytes.ofAscii "a"), .close, .close, .close, .close],
        none⟩ := by decide +kernel
  rw [Soap.Envelope.read, hdocument]
  rfl

/-- A message that has a fault. -/
private def faulty : Soap.Message := ⟨.v1_1, ∅, faultContent, _, read_faultContent⟩

private def faultEdits : List Soap.MimeEdit :=
  [.add "SOAPAction" "urn:a", .set "Content-Type" "text/xml"]

/-- Octets in two pieces, with interruptions. -/
private def inPieces (content : Bytes) : Stream :=
  ⟨[.data (content.take 70), .interrupted, .data [], .data (content.drop 70), .interrupted], none⟩

private theorem cuts_inPieces (content : Bytes) : (inPieces content).Cuts content where
  whole := by simp [inPieces, Arrival.octets]
  fine := rfl

private theorem message_faultBody :
    Soap.Origin.message .v1_1 (.body faultBody) = .ok faulty := by
  have hbytes : Soap.Message.ofBytes .v1_1 faultContent = .ok faulty :=
    Soap.Message.ofBytes_eq_ok_iff.mpr ⟨read_faultContent, rfl, by simp only [faulty], rfl⟩
  rw [Soap.Origin.message, Soap.Message.ofBody]
  exact hbytes

/-- A fault gets an action and a content type, and comes back in pieces. -/
theorem call_echo_pieces :
    ∃ made request answer : Soap.Message,
      Soap.Origin.message .v1_1 (.body faultBody) = .ok made ∧
      request = made.editMime faultEdits ∧
      ((⟨some (ScriptedTransport.ofScript [⟨none, .ok (inPieces request.content), none⟩]), .v1_1⟩ :
        Connection ScriptedTransport).call request "https://host/").1 = .ok answer ∧
      answer.fault = some ⟨"a", ""⟩ ∧ answer.mime = ∅ := by
  let request := faulty.editMime faultEdits
  have hheaders : CallHeaders.ofMime request.mime =
      .ok ⟨⟨Bytes.ofAscii "text/xml", rfl⟩, some ⟨Bytes.ofAscii "urn:a", rfl⟩⟩ := rfl
  obtain ⟨url, hparse⟩ : ∃ url, Url.parse "https://host/" = .ok url := ⟨_, rfl⟩
  let transport := ScriptedTransport.ofScript [⟨none, .ok (inPieces request.content), none⟩]
  let connection : Connection ScriptedTransport := ⟨some transport, .v1_1⟩
  have hreaches : ReachesEcho connection request "https://host/" :=
    ⟨rfl, transport, _, url, rfl, hheaders, hparse, _, _, inPieces request.content, rfl, rfl,
      cuts_inPieces request.content⟩
  obtain ⟨answer, hcall, -, -, -, hfault, hmime⟩ := (call_echo faultEdits).2 (.body faultBody)
    .v1_1 faulty connection "https://host/" message_faultBody hreaches
  exact ⟨faulty, request, answer, message_faultBody, rfl, hcall, hfault, hmime⟩

end Pieces

end Connection

end KerberosHttp
