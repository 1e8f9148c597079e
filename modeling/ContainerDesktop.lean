import ContainerDesktop.DesiredStateConfiguration.Context
import ContainerDesktop.DesiredStateConfiguration.DependencyGraph
import ContainerDesktop.DesiredStateConfiguration.Schedule
import ContainerDesktop.DesiredStateConfiguration.Manifest
import ContainerDesktop.DesiredStateConfiguration.Rollback
import ContainerDesktop.Regex
import ContainerDesktop.Rewrite.MapPath
import ContainerDesktop.Rewrite.Rewriters
import ContainerDesktop.Rewrite.Body
import ContainerDesktop.Configuration.ConfigurationService
import ContainerDesktop.Configuration.Snapshot
import ContainerDesktop.Services.Engine
import ContainerDesktop.Services.Shutdown
import ContainerDesktop.OpenItems
import ContainerDesktop.Services.PortForwarding
import ContainerDesktop.Services.PortMessages
import ContainerDesktop.Services.Sessions
import ContainerDesktop.Services.DockerProxy
import ContainerDesktop.Rewrite.DrivePath
import ContainerDesktop.Rewrite.Positions
import ContainerDesktop.Rewrite.Frame
import ContainerDesktop.DesiredStateConfiguration.DependencyOrder
import ContainerDesktop.DesiredStateConfiguration.Outcome
import ContainerDesktop.DesiredStateConfiguration.Restarts
import ContainerDesktop.DesiredStateConfiguration.CopyFile
import ContainerDesktop.Services.ForwarderTable
import ContainerDesktop.Services.Toggles
import ContainerDesktop.Services.ClosedPorts
import ContainerDesktop.Services.Background
import ContainerDesktop.PortForwarder.ConnTrack
import ContainerDesktop.PortForwarder.UdpProxy
import ContainerDesktop.PortForwarder.TcpProxy
import ContainerDesktop.ReverseProxy.Upgrade
import ContainerDesktop.Configuration.Validation
import ContainerDesktop.Services.LineEffects
import ContainerDesktop.Services.SpecificAddress
import ContainerDesktop.Services.ForeignLines
import ContainerDesktop.Services.Orphans
import ContainerDesktop.Rewrite.Requests
import ContainerDesktop.Rewrite.Panics
import ContainerDesktop.Rounding
import ContainerDesktop.Rewrite.Numbers
import ContainerDesktop.DesiredStateConfiguration.AddToPath
import ContainerDesktop.Configuration.Certificates
import ContainerDesktop.Services.CertificateChanges
import ContainerDesktop.Services.Readiness
import ContainerDesktop.Services.CertificateFiles
import ContainerDesktop.CommandLine
import ContainerDesktop.Processes.ArgumentBuilder
import ContainerDesktop.PortForwarder.Datagrams
import ContainerDesktop.Backtracking
import ContainerDesktop.Configuration.DnsAddresses
import ContainerDesktop.HeaderMap
import ContainerDesktop.ReverseProxy.Headers
import ContainerDesktop.ReverseProxy.CopyResponse
import ContainerDesktop.ReverseProxy.ServeHTTP
import ContainerDesktop.ReverseProxy.Trailers
import ContainerDesktop.PercentEncoding
import ContainerDesktop.ReverseProxy.Urls
import ContainerDesktop.PortForwarder.UdpClose
import ContainerDesktop.PortForwarder.TcpClients
import ContainerDesktop.ReverseProxy.UpgradeEnds
import ContainerDesktop.Flags
import ContainerDesktop.PortForwarder.Process
import ContainerDesktop.DesiredStateConfiguration.Uninstall
import ContainerDesktop.Services.DnsLifecycle
