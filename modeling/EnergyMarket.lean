import EnergyMarket.Library.Runs
import EnergyMarket.Library.Utxo
import EnergyMarket.Library.LinearHistory
import EnergyMarket.States
import EnergyMarket.Transactions
import EnergyMarket.Contract
import EnergyMarket.Ledger
import EnergyMarket.Blindness
import EnergyMarket.Provenance
import EnergyMarket.OneTrade
import EnergyMarket.Authority
import EnergyMarket.Lifecycle
import EnergyMarket.Terms
import EnergyMarket.Roles
import EnergyMarket.TwoParties
import EnergyMarket.Flows
import EnergyMarket.Drafts
import EnergyMarket.KillRecord
import EnergyMarket.Sessions
import EnergyMarket.Vault
import EnergyMarket.Consent
import EnergyMarket.Authenticity
import EnergyMarket.Identity
import EnergyMarket.Negotiation
import EnergyMarket.Network
import EnergyMarket.Chronicle
import EnergyMarket.HonestHistory
import EnergyMarket.Agreement
import EnergyMarket.Notaries
import EnergyMarket.Lookups
import EnergyMarket.Completion
import EnergyMarket.Paging
import EnergyMarket.Draining
import EnergyMarket.Contention
import EnergyMarket.CommitOrder
import EnergyMarket.Market
import EnergyMarket.Trading
import EnergyMarket.Secrecy
import EnergyMarket.Listings
import EnergyMarket.Sequential
import EnergyMarket.Progress
import EnergyMarket.Serial
import EnergyMarket.Independence
import EnergyMarket.Controllers
import EnergyMarket.Refusals
import EnergyMarket.Returns
import EnergyMarket.Service
import EnergyMarket.Reads
import EnergyMarket.Peers
