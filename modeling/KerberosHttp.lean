import KerberosHttp.Bytes
import KerberosHttp.ClientAuth.Basic
import KerberosHttp.ClientAuth.Settings
import KerberosHttp.Connection.Basic
import KerberosHttp.Connection.Headers
import KerberosHttp.Connection.Session
import KerberosHttp.Credential.Basic
import KerberosHttp.Credential.Holdings
import KerberosHttp.Decimal.Shortest
import KerberosHttp.Http.Header
import KerberosHttp.Inbound.Request
import KerberosHttp.Inbound.Scheme
import KerberosHttp.Inbound.View
import KerberosHttp.Json.Event
import KerberosHttp.Json.Number
import KerberosHttp.Json.Token
import KerberosHttp.Log
import KerberosHttp.Principal
import KerberosHttp.Proofs.Xml.Content
import KerberosHttp.Soap.Envelope
import KerberosHttp.Soap.Message
import KerberosHttp.Soap.Mime
import KerberosHttp.Soap.Version
import KerberosHttp.Text.Ascii
import KerberosHttp.Text.Blank
import KerberosHttp.Text.Quoted
import KerberosHttp.Text.Utf8
import KerberosHttp.Transport.Basic
import KerberosHttp.Transport.Error
import KerberosHttp.Transport.Recording
import KerberosHttp.Transport.Scripted
import KerberosHttp.Transport.Stream
import KerberosHttp.Url.Ascii
import KerberosHttp.Url.Basic
import KerberosHttp.Url.Host
import KerberosHttp.Url.Parse
import KerberosHttp.Url.Percent
import KerberosHttp.Xml.CharacterData
import KerberosHttp.Xml.Document
import KerberosHttp.Xml.Error
import KerberosHttp.Xml.Namespace
import KerberosHttp.Xml.Token
import KerberosHttp.Proofs.Soap.Scan
import KerberosHttp.Proofs.Soap.Outline
import KerberosHttp.Proofs.Soap.FaultText
import KerberosHttp.Proofs.Connection.Call
import KerberosHttp.Proofs.Connection.Protocol
import KerberosHttp.Proofs.Connection.Isolation
import KerberosHttp.Proofs.Connection.Result
import KerberosHttp.Proofs.Soap.Versions
import KerberosHttp.Proofs.Xml.Reading
import KerberosHttp.Proofs.Soap.Enclosure
import KerberosHttp.Proofs.Xml.Cut
import KerberosHttp.Proofs.Soap.Truncation
import KerberosHttp.Proofs.Connection.Echo
import KerberosHttp.Proofs.Connection.Lifecycle
import KerberosHttp.Proofs.Soap.EmptyTags
import KerberosHttp.Proofs.Soap.Offence
import KerberosHttp.Proofs.Soap.FieldElement
import KerberosHttp.Proofs.Soap.FaultReason
import KerberosHttp.Proofs.Soap.Segments
import KerberosHttp.Proofs.Soap.ForeignText
import KerberosHttp.Proofs.Soap.InertText
import KerberosHttp.Proofs.Soap.Fragment
import KerberosHttp.Proofs.Soap.Coherence
import KerberosHttp.Proofs.Connection.Negotiation
import KerberosHttp.Proofs.Connection.ErrorEntity
import KerberosHttp.Proofs.Transport.Reading
import KerberosHttp.Proofs.Transport.Transcript
import KerberosHttp.Proofs.Transport.Recording
import KerberosHttp.Proofs.Connection.Report
import KerberosHttp.Proofs.Connection.Password
import KerberosHttp.Proofs.Credential.Disposal
import KerberosHttp.Proofs.Principal
import KerberosHttp.Proofs.Inbound.View
import KerberosHttp.Proofs.Inbound.FirstValue
import KerberosHttp.Proofs.Soap.Mime
import KerberosHttp.Proofs.Json.Text
import KerberosHttp.Proofs.ClientAuth.Redaction
import KerberosHttp.Proofs.ClientAuth.Validation
import KerberosHttp.Proofs.ClientAuth.Echo
