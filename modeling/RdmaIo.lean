import RdmaIo.Ring.Doorbells
import RdmaIo.Ring.RingQueue
import RdmaIo.Ring.CmChannel
import RdmaIo.Driver.Admission
import RdmaIo.Driver.TryAdmit
import RdmaIo.Driver.UdpSocket
import RdmaIo.Engine.RegistryHistory
import RdmaIo.Engine.Completions
import RdmaIo.Engine.IoRuns
import RdmaIo.Engine.Controls
import RdmaIo.Engine.Deadlines
import RdmaIo.Message.Conservation
import RdmaIo.Message.Partition
import RdmaIo.Message.CloseRaceRuns
import RdmaIo.Message.CloseRaceAlone
import RdmaIo.Engine.Resolution
import RdmaIo.Engine.ConnectDelivery
