import WgoTailscale.EventOrder
import WgoTailscale.EventQueue
import WgoTailscale.NoiseRead
import WgoTailscale.Takeover
import WgoTailscale.Shutdown
import WgoTailscale.Relays
import WgoTailscale.AclTermination
import WgoTailscale.PingQueue
import WgoTailscale.EndpointUpdates
import WgoTailscale.PathReports
import WgoTailscale.NoiseHandshake
import WgoTailscale.Snapshots
import WgoTailscale.Confirmations
import WgoTailscale.DerpSlots
import WgoTailscale.NetcheckProbes
import WgoTailscale.DerpRuns
import WgoTailscale.ProbeTargets
import WgoTailscale.DnsRecords
import WgoTailscale.RepeatedMaps
import WgoTailscale.DiscoSafety
import WgoTailscale.Inbound
import WgoTailscale.Sends
import WgoTailscale.DerpFrames
import WgoTailscale.Recovery
import WgoTailscale.Advertised
import WgoTailscale.NetworkRevision
import WgoTailscale.Attachment
