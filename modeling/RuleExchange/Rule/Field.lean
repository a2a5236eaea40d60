import RuleExchange.Text.Part

/-! Field names. Rules use one neutral set of names; every platform has its own
names for them. A field map lists pairs of a neutral and a platform name: names are
mapped to the platform exactly and back without regard to ASCII case, the first pair
winning. -/

namespace RuleExchange

namespace Field

def sourceIp := "source_ip"
def destinationIp := "destination_ip"
def sourcePort := "source_port"
def destinationPort := "destination_port"
def timestamp := "timestamp"
def payload := "payload"
def httpUri := "http_uri"
def dnsQuery := "dns_query"
def processName := "process_name"
def commandLine := "command_line"
def parentProcess := "parent_process"
def hostname := "hostname"
def user := "user"
def filePath := "file_path"
def eventType := "event_type"
def agentId := "agent_id"

/-- The neutral field names. -/
def all : List String :=
  [sourceIp, destinationIp, sourcePort, destinationPort, timestamp, payload, httpUri, dnsQuery,
    processName, commandLine, parentProcess, hostname, user, filePath, eventType, agentId]

def isCanonical (name : String) : Bool := all.contains name

end Field

/-- Pairs of a neutral and a platform name, in order of preference. -/
structure FieldMap where
  entries : List (String × String)

namespace FieldMap

def toPlatform (m : FieldMap) (neutral : String) : Option String :=
  (m.entries.find? fun (c, _) => c == neutral).map (·.2)

def toCanonical (m : FieldMap) (platform : String) : Option String :=
  (m.entries.find? fun (_, p) => Text.sameText p platform).map (·.1)

def platformOrKeep (m : FieldMap) (neutral : String) : String :=
  (m.toPlatform neutral).getD neutral

def canonicalOrKeep (m : FieldMap) (platform : String) : String :=
  (m.toCanonical platform).getD platform

/-- Every name stands for itself. -/
def identity : FieldMap := ⟨[]⟩

def splunk : FieldMap := ⟨[
  (Field.sourceIp, "src_ip"),
  (Field.destinationIp, "dest_ip"),
  (Field.sourcePort, "src_port"),
  (Field.destinationPort, "dest_port"),
  (Field.timestamp, "_time"),
  (Field.payload, "_raw"),
  (Field.httpUri, "uri_path"),
  (Field.dnsQuery, "query"),
  (Field.processName, "process_name"),
  (Field.commandLine, "process"),
  (Field.parentProcess, "parent_process_name"),
  (Field.hostname, "host"),
  (Field.user, "user"),
  (Field.filePath, "file_path"),
  (Field.eventType, "eventtype"),
  (Field.agentId, "dvc")]⟩

def qradar : FieldMap := ⟨[
  (Field.sourceIp, "sourceip"),
  (Field.destinationIp, "destinationip"),
  (Field.sourcePort, "sourceport"),
  (Field.destinationPort, "destinationport"),
  (Field.timestamp, "starttime"),
  (Field.payload, "payload"),
  (Field.httpUri, "url"),
  (Field.dnsQuery, "dnsdomain"),
  (Field.processName, "processname"),
  (Field.commandLine, "commandline"),
  (Field.parentProcess, "parentprocessname"),
  (Field.hostname, "identityhostname"),
  (Field.user, "username"),
  (Field.filePath, "filename"),
  (Field.eventType, "eventname"),
  (Field.agentId, "logsourceid")]⟩

/-- The dotted names of event query languages. -/
def ecs : FieldMap := ⟨[
  (Field.sourceIp, "source.ip"),
  (Field.destinationIp, "destination.ip"),
  (Field.sourcePort, "source.port"),
  (Field.destinationPort, "destination.port"),
  (Field.timestamp, "@timestamp"),
  (Field.httpUri, "url.path"),
  (Field.dnsQuery, "dns.question.name"),
  (Field.processName, "process.name"),
  (Field.commandLine, "process.command_line"),
  (Field.parentProcess, "process.parent.name"),
  (Field.hostname, "host.name"),
  (Field.user, "user.name"),
  (Field.filePath, "file.path"),
  (Field.eventType, "event.category"),
  (Field.agentId, "agent.id")]⟩

def crowdstrike : FieldMap := ⟨[
  (Field.eventType, "event_simpleName"),
  (Field.hostname, "ComputerName"),
  (Field.commandLine, "CommandLine"),
  (Field.processName, "ImageFileName"),
  (Field.parentProcess, "ParentBaseFileName"),
  (Field.user, "UserName"),
  (Field.sourceIp, "LocalAddressIP4"),
  (Field.destinationIp, "RemoteAddressIP4"),
  (Field.sourcePort, "LocalPort"),
  (Field.destinationPort, "RemotePort"),
  (Field.filePath, "TargetFileName"),
  (Field.dnsQuery, "DomainName"),
  (Field.timestamp, "timestamp"),
  (Field.agentId, "aid")]⟩

def sentinelone : FieldMap := ⟨[
  (Field.eventType, "eventType"),
  (Field.agentId, "agentId"),
  (Field.commandLine, "processCmd"),
  (Field.processName, "processName"),
  (Field.parentProcess, "parentProcessName"),
  (Field.hostname, "endpointName"),
  (Field.user, "user"),
  (Field.sourceIp, "srcIp"),
  (Field.destinationIp, "dstIp"),
  (Field.sourcePort, "srcPort"),
  (Field.destinationPort, "dstPort"),
  (Field.filePath, "fileFullName"),
  (Field.dnsQuery, "dnsRequest"),
  (Field.httpUri, "url"),
  (Field.timestamp, "eventTime")]⟩

def defender : FieldMap := ⟨[
  (Field.eventType, "ActionType"),
  (Field.hostname, "DeviceName"),
  (Field.commandLine, "ProcessCommandLine"),
  (Field.processName, "FileName"),
  (Field.parentProcess, "InitiatingProcessFileName"),
  (Field.user, "AccountName"),
  (Field.sourceIp, "LocalIP"),
  (Field.destinationIp, "RemoteIP"),
  (Field.sourcePort, "LocalPort"),
  (Field.destinationPort, "RemotePort"),
  (Field.filePath, "FolderPath"),
  (Field.httpUri, "RemoteUrl"),
  (Field.timestamp, "Timestamp"),
  (Field.agentId, "DeviceId")]⟩

/-- Expressions over the connection record and the arguments of an event handler. -/
def zeek : FieldMap := ⟨[
  (Field.sourceIp, "c$id$orig_h"),
  (Field.destinationIp, "c$id$resp_h"),
  (Field.sourcePort, "c$id$orig_p"),
  (Field.destinationPort, "c$id$resp_p"),
  (Field.payload, "contents"),
  (Field.httpUri, "unescaped_URI"),
  (Field.dnsQuery, "query")]⟩

end FieldMap

/-- Event categories and a vendor's names for them; ASCII case is ignored in both directions. -/
structure CategoryMap where
  entries : List (String × String)

namespace CategoryMap

def toPlatform (m : CategoryMap) (category : String) : Option String :=
  (m.entries.find? fun (c, _) => Text.sameText c category).map (·.2)

def toCanonical (m : CategoryMap) (platform : String) : Option String :=
  (m.entries.find? fun (_, p) => Text.sameText p platform).map (·.1)

def generic : CategoryMap := ⟨[
  ("network", "network"),
  ("process", "process"),
  ("file", "file"),
  ("dns", "dns"),
  ("registry", "registry")]⟩

def crowdstrike : CategoryMap := ⟨[
  ("network", "NetworkConnectIP4"),
  ("process", "ProcessRollup2"),
  ("file", "NewExecutableWritten"),
  ("dns", "DnsRequest"),
  ("registry", "AsepValueUpdate")]⟩

def sentinelone : CategoryMap := ⟨[
  ("network", "IP Connect"),
  ("process", "Process Creation"),
  ("file", "File Creation"),
  ("dns", "DNS Resolved"),
  ("registry", "Registry Value Modified")]⟩

def defender : CategoryMap := ⟨[
  ("network", "ConnectionSuccess"),
  ("process", "ProcessCreated"),
  ("file", "FileCreated"),
  ("dns", "DnsQueryResponse"),
  ("registry", "RegistryValueSet")]⟩

end CategoryMap

end RuleExchange
